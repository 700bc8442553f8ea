import BoostConnector.Types.BidLadder
import Mathlib.Data.List.Induction
import Mathlib.Logic.Function.Basic

/-!
# The top of the book

Abstractly a side of an order book is a map from prices to depths, and an update writes one entry of
it. A ladder remembers no more than its limit of levels, so what has fallen out is lost to it. As
long as no update deletes, this makes no difference: after every sequence of updates the ladder
holds exactly the highest levels of the book (`updates_isTop`), and therefore depends on the last
update of each price only.
-/

namespace BoostConnector

namespace Types

open Collections

variable {Price Quantity : Type*} [LinearOrder Price]

/-! ## Books -/

/-- The depth at each price where there is one. -/
abbrev Book (Price Quantity : Type*) := Price → Option Quantity

namespace Book

/-- The updates in order, the last one of each price winning. -/
def applyUpdates (book : Book Price Quantity) (updates : List (Price × Quantity)) :
    Book Price Quantity :=
  updates.foldl (fun book u ↦ Function.update book u.1 (some u.2)) book

def entries (book : Book Price Quantity) : Set (OrderbookLevel Price Quantity) :=
  {level | book level.price = some level.depth}

/-- The book that a sequence of levels stands for. -/
def ofLevels (levels : List (OrderbookLevel Price Quantity)) : Book Price Quantity := fun price ↦
  (levels.find? fun level ↦ level.price = price).map OrderbookLevel.depth

omit [LinearOrder Price] in
theorem mem_entries {book : Book Price Quantity} {level : OrderbookLevel Price Quantity} :
    level ∈ book.entries ↔ book level.price = some level.depth := Iff.rfl

theorem applyUpdates_concat (book : Book Price Quantity) (updates : List (Price × Quantity))
    (u : Price × Quantity) : book.applyUpdates (updates ++ [u]) =
      Function.update (book.applyUpdates updates) u.1 (some u.2) := by
  rw [applyUpdates, List.foldl_append, ← applyUpdates]
  rfl

theorem entries_update (book : Book Price Quantity) (price : Price) (depth : Quantity) :
    entries (Function.update book price (some depth)) =
      put OrderbookLevel.price ⟨price, depth⟩ (entries book) := by
  ext level
  obtain ⟨p, d⟩ := level
  by_cases hp : p = price
  · subst hp
    simp [entries, put, eq_comm]
  · simp [entries, put, hp]

/-- Only the last update of a price counts for it. -/
theorem applyUpdates_apply (book : Book Price Quantity) (updates : List (Price × Quantity))
    (price : Price) :
    book.applyUpdates updates price =
      (((updates.filter fun u ↦ u.1 = price).getLast?).map Prod.snd).or (book price) := by
  induction updates using List.reverseRecOn with
  | nil => rfl
  | append_singleton updates u ih =>
    rw [applyUpdates_concat, List.filter_append]
    by_cases hu : u.1 = price
    · subst hu
      simp
    · rw [Function.update_of_ne (Ne.symm hu), ih]
      simp [hu]

theorem mem_entries_ofLevels {levels : List (OrderbookLevel Price Quantity)}
    (h : Decreasing OrderbookLevel.price levels) {level : OrderbookLevel Price Quantity} :
    level ∈ entries (ofLevels levels) ↔ level ∈ levels := by
  induction levels with
  | nil => simp [entries, ofLevels]
  | cons a levels ih =>
    obtain ⟨ha, hl⟩ := List.pairwise_cons.mp h
    rw [List.mem_cons, ← ih hl, mem_entries, mem_entries, ofLevels, ofLevels, List.find?_cons]
    by_cases hprice : a.price = level.price
    · -- below `a` there is no level of its price
      have hnone : levels.find? (fun b ↦ b.price = level.price) = none := by
        apply List.find?_eq_none.mpr
        intro b hb heq
        have hlt := ha b hb
        rw [of_decide_eq_true heq, hprice] at hlt
        exact lt_irrefl _ hlt
      rw [hnone, decide_eq_true hprice]
      obtain ⟨p, d⟩ := level
      obtain ⟨q, e⟩ := a
      obtain rfl : q = p := hprice
      simp [eq_comm]
    · have hne : level ≠ a := fun heq ↦ hprice (heq ▸ rfl)
      simp [hprice, hne]

theorem isTop_ofLevels {levels : List (OrderbookLevel Price Quantity)} {n : ℕ}
    (h : Decreasing OrderbookLevel.price levels) (hlen : levels.length ≤ n) :
    IsTop OrderbookLevel.price n (entries (ofLevels levels)) levels where
  decreasing := h
  length_le := hlen
  mem _ hlevel := (mem_entries_ofLevels h).mpr hlevel
  complete _ hlevel := .inl ((mem_entries_ofLevels h).mp hlevel)

end Book

/-! ## Updates of a ladder -/

namespace BidLadder

variable [Zero Quantity] [DecidableEq Quantity] {self : BidLadder Price Quantity}

def setAll (self : BidLadder Price Quantity) (updates : List (Price × Quantity)) :
    BidLadder Price Quantity :=
  updates.foldl (fun ladder u ↦ ladder.set u.1 u.2) self

theorem setAll_concat (self : BidLadder Price Quantity) (updates : List (Price × Quantity))
    (u : Price × Quantity) :
    self.setAll (updates ++ [u]) = (self.setAll updates).set u.1 u.2 := by
  rw [setAll, List.foldl_append, ← setAll]
  rfl

@[simp] theorem maxLevels_setAll (updates : List (Price × Quantity)) :
    (self.setAll updates).maxLevels = self.maxLevels := by
  induction updates using List.reverseRecOn with
  | nil => rfl
  | append_singleton updates u ih =>
    rw [setAll_concat, maxLevels_set, ih]

/-- One update keeps the ladder at the top of the book. -/
theorem isTop_set {book : Book Price Quantity}
    (h : IsTop OrderbookLevel.price self.maxLevels book.entries self.levels) (price : Price)
    {depth : Quantity} (hdepth : depth ≠ 0) :
    IsTop OrderbookLevel.price self.maxLevels
      (Book.entries (Function.update book price (some depth))) (self.set price depth).levels := by
  obtain ⟨above, below, habove, hbelow, hset⟩ := set_cases h.decreasing price depth
  rw [Book.entries_update]
  rcases hset with ⟨level, hprice, hlevels, hset⟩ | ⟨hlevels, hset⟩
  · rw [hset, if_neg hdepth]
    rw [hlevels] at h
    exact h.put_replace hprice
  · rw [hset]
    rw [hlevels] at h
    exact h.put_insert habove hbelow

theorem isTop_setAll {book : Book Price Quantity}
    (h : IsTop OrderbookLevel.price self.maxLevels book.entries self.levels)
    {updates : List (Price × Quantity)} (hdepth : ∀ u ∈ updates, u.2 ≠ 0) :
    IsTop OrderbookLevel.price self.maxLevels (book.applyUpdates updates).entries
      (self.setAll updates).levels := by
  induction updates using List.reverseRecOn with
  | nil => exact h
  | append_singleton updates u ih =>
    have hu := hdepth u (by simp)
    have hstep := ih fun v hv ↦ hdepth v (List.mem_append_left _ hv)
    rw [setAll_concat, Book.applyUpdates_concat]
    rw [← maxLevels_setAll updates] at hstep ⊢
    exact isTop_set hstep u.1 hu

/-- **Updates that do not delete compute the top of the book**: the highest levels of the map that
the updates give, with the last one of each price winning. Their order matters no further. -/
theorem updates_isTop (hself : self.WellFormed) {updates : List (Price × Quantity)}
    (hdepth : ∀ u ∈ updates, u.2 ≠ 0) :
    IsTop OrderbookLevel.price self.maxLevels
        ((Book.ofLevels self.levels).applyUpdates updates).entries (self.setAll updates).levels ∧
      ∀ updates', (∀ u ∈ updates', u.2 ≠ 0) →
        (∀ price : Price,
          (updates.filter fun u ↦ u.1 = price) = updates'.filter fun u ↦ u.1 = price) →
        self.setAll updates' = self.setAll updates := by
  have htop := Book.isTop_ofLevels hself.decreasing hself.length_le
  refine ⟨isTop_setAll htop hdepth, fun updates' hdepth' hagree ↦ ?_⟩
  have hbook : (Book.ofLevels self.levels).applyUpdates updates' =
      (Book.ofLevels self.levels).applyUpdates updates := by
    funext price
    rw [Book.applyUpdates_apply, Book.applyUpdates_apply, hagree]
  have hlevels := (isTop_setAll htop hdepth').unique (hbook ▸ isTop_setAll htop hdepth)
  have hmax : (self.setAll updates').maxLevels = (self.setAll updates).maxLevels := by simp
  cases hleft : self.setAll updates'
  cases hright : self.setAll updates
  simp_all

/-- A full ladder of two levels. -/
def twoBids : BidLadder ℤ ℤ := ⟨[⟨10001, 25⟩, ⟨10000, 100⟩], 2⟩

theorem updates_isTop_twoBids :
    IsTop OrderbookLevel.price 2
        ((Book.ofLevels twoBids.levels).applyUpdates [(9999, 150), (10002, 150)]).entries
        (twoBids.setAll [(9999, 150), (10002, 150)]).levels ∧
      twoBids.setAll [(10002, 150), (9999, 150)] = twoBids.setAll [(9999, 150), (10002, 150)] := by
  have hwf : twoBids.WellFormed := ⟨by simp [twoBids, Decreasing], le_rfl⟩
  have hdepth : ∀ u ∈ [((9999 : ℤ), (150 : ℤ)), (10002, 150)], u.2 ≠ 0 := by simp
  obtain ⟨htop, horder⟩ := updates_isTop hwf hdepth
  refine ⟨htop, horder _ (by simp) fun price ↦ ?_⟩
  by_cases hprice : 9999 = price
  · subst hprice
    simp
  · simp [List.filter_cons, hprice]

end BidLadder

end Types

end BoostConnector
