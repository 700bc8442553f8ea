import BoostConnector.Types.BookTop

/-!
# Deleting a bid

To set a depth of zero is to remove the level of that price. `set` looks at the depth only once it
has found a level of the price, so the deletion of a price that is not in the ladder goes the way of
an insertion: a level of depth zero appears and, in a full ladder, the lowest level is evicted for
it. Only where the new level would be the lowest of a full ladder is it cut off at once.

A deletion removes the level and nothing else just when it can (`CanDelete`), and just then no level
of depth zero is left behind (`deletions_exact_iff`).
-/

namespace BoostConnector

namespace Types

open Collections

namespace BidLadder

variable {Price Quantity : Type*} [LinearOrder Price] [Zero Quantity] [DecidableEq Quantity]
  {self : BidLadder Price Quantity}

/-- The levels left after the deletion of a price are those of the other prices. -/
def DeletesOnly (self : BidLadder Price Quantity) (price : Price) : Prop :=
  (self.set price 0).levels = self.levels.filter fun level ↦ level.price ≠ price

/-- The price is in the ladder, or it would come last in a full one. -/
def CanDelete (self : BidLadder Price Quantity) (price : Price) : Prop :=
  (∃ level ∈ self.levels, level.price = price) ∨
    self.levels.length = self.maxLevels ∧ ∀ level ∈ self.levels, price < level.price

instance (self : BidLadder Price Quantity) (price : Price) : Decidable (self.CanDelete price) :=
  inferInstanceAs (Decidable (_ ∨ _))

/-! ## One deletion -/

omit [Zero Quantity] [DecidableEq Quantity] in
theorem filter_ne_eq_self {levels : List (OrderbookLevel Price Quantity)} {price : Price}
    (h : ∀ level ∈ levels, level.price ≠ price) :
    (levels.filter fun level ↦ level.price ≠ price) = levels := by
  apply List.filter_eq_self.mpr
  intro level hlevel
  exact decide_eq_true (h level hlevel)

theorem deletesOnly_of_canDelete (h : self.WellFormed) {price : Price}
    (hcan : self.CanDelete price) : self.DeletesOnly price := by
  obtain ⟨above, below, habove, hbelow, hset⟩ := set_cases h.decreasing price 0
  have hne_above := filter_ne_eq_self fun level hlevel ↦ (habove level hlevel).ne'
  have hne_below := filter_ne_eq_self fun level hlevel ↦ (hbelow level hlevel).ne
  rcases hset with ⟨level, hprice, hlevels, hset⟩ | ⟨hlevels, hset⟩
  · rw [DeletesOnly, hset, if_pos rfl, hlevels, List.filter_append,
      List.filter_cons_of_neg (by simpa using hprice), hne_above, hne_below]
  · have habsent : ∀ level ∈ self.levels, level.price ≠ price := by
      intro level hlevel
      rcases List.mem_append.mp (hlevels ▸ hlevel) with hin | hin
      · exact (habove level hin).ne'
      · exact (hbelow level hin).ne
    rcases hcan with ⟨level, hlevel, hprice⟩ | ⟨hfull, hlast⟩
    · exact absurd hprice (habsent level hlevel)
    · -- the new level is the last one, and one too many
      have hnil : below = [] := by
        apply List.eq_nil_iff_forall_not_mem.mpr
        intro b hb
        exact (hlast b (by simp [hlevels, hb])).asymm (hbelow b hb)
      subst hnil
      rw [List.append_nil] at hlevels
      rw [DeletesOnly, hset, filter_ne_eq_self habsent, ← hfull, hlevels, List.take_left]

/-- Where the price cannot be deleted, a level of depth zero is inserted. -/
theorem mem_set_zero (h : self.WellFormed) {price : Price} (hcan : ¬self.CanDelete price) :
    ⟨price, 0⟩ ∈ (self.set price 0).levels := by
  obtain ⟨above, below, habove, hbelow, hset⟩ := set_cases h.decreasing price 0
  rcases hset with ⟨level, hprice, hlevels, -⟩ | ⟨hlevels, hset⟩
  · exact absurd (.inl ⟨level, by simp [hlevels], hprice⟩) hcan
  · have hlen := h.length_le
    rw [hlevels, List.length_append] at hlen
    have hroom : above.length < self.maxLevels := by
      by_contra hfull
      have hnil : below = [] := List.eq_nil_of_length_eq_zero (by omega)
      apply hcan
      right
      rw [hlevels, hnil, List.append_nil]
      exact ⟨by omega, habove⟩
    rw [hset]
    apply List.mem_of_getElem? (i := above.length)
    rw [List.getElem?_take_of_lt hroom]
    simp

theorem deletesOnly_iff_canDelete (h : self.WellFormed) {price : Price} :
    self.DeletesOnly price ↔ self.CanDelete price := by
  constructor
  · intro honly
    by_contra hcan
    have hmem := mem_set_zero h hcan
    rw [honly] at hmem
    simp at hmem
  · exact deletesOnly_of_canDelete h

/-! ## Runs -/

def NoZero (self : BidLadder Price Quantity) : Prop := ∀ level ∈ self.levels, level.depth ≠ 0

theorem mem_levels_of_mem_set (h : self.WellFormed) {price : Price} {depth : Quantity}
    {level : OrderbookLevel Price Quantity} (hlevel : level ∈ (self.set price depth).levels) :
    level ∈ self.levels ∨ level = ⟨price, depth⟩ := by
  obtain ⟨above, below, -, -, hset⟩ := set_cases h.decreasing price depth
  rcases hset with ⟨old, -, hlevels, hset⟩ | ⟨hlevels, hset⟩
  · rw [hset] at hlevel
    rw [hlevels]
    split_ifs at hlevel
    · simp at hlevel ⊢
      tauto
    · simp at hlevel ⊢
      tauto
  · rw [hset] at hlevel
    have hin := List.mem_of_mem_take hlevel
    rw [hlevels]
    simp at hin ⊢
    tauto

/-- A step leaves a level of depth zero behind just when it is a deletion that cannot be made. -/
theorem noZero_set_iff (h : self.WellFormed) (hzero : self.NoZero) (price : Price)
    (depth : Quantity) :
    (self.set price depth).NoZero ↔ (depth = 0 → self.CanDelete price) := by
  constructor
  · rintro hnext rfl
    by_contra hcan
    exact hnext _ (mem_set_zero h hcan) rfl
  · intro hcan level hlevel hdepth
    rcases mem_levels_of_mem_set h hlevel with hold | rfl
    · exact hzero level hold hdepth
    · obtain rfl : depth = 0 := hdepth
      rw [deletesOnly_of_canDelete h (hcan rfl)] at hlevel
      simp at hlevel

/-- The ladder after a sequence of calls on an empty one. -/
def run (maxLevels : ℕ) (updates : List (Price × Quantity)) : BidLadder Price Quantity :=
  ({ maxLevels := maxLevels } : BidLadder Price Quantity).setAll updates

theorem wellFormed_run (maxLevels : ℕ) (updates : List (Price × Quantity)) :
    (run maxLevels updates).WellFormed := by
  induction updates using List.reverseRecOn with
  | nil => exact wellFormed_empty maxLevels
  | append_singleton updates u ih =>
    rw [run, setAll_concat]
    exact wellFormed_set ih u.1 u.2

/-- **Deletions delete a level and nothing else exactly when they can.** In every ladder reached,
the deletion of a price leaves the levels of the other prices just when the price can be deleted;
and a run reaches no level of depth zero just when each of its deletions could be made. -/
theorem deletions_exact_iff (maxLevels : ℕ) (updates : List (Price × Quantity)) :
    (∀ price, (run maxLevels updates).DeletesOnly price ↔
        (run maxLevels updates).CanDelete price) ∧
      ((∀ before, before <+: updates → (run maxLevels before).NoZero) ↔
        ∀ before price after, updates = before ++ (price, 0) :: after →
          (run maxLevels before).CanDelete price) := by
  refine ⟨fun price ↦ deletesOnly_iff_canDelete (wellFormed_run maxLevels updates), ?_⟩
  constructor
  · rintro hzero before price after rfl
    have hbefore := hzero before (List.prefix_append _ _)
    have hafter := hzero (before ++ [(price, 0)]) ⟨after, by simp⟩
    rw [run, setAll_concat] at hafter
    exact (noZero_set_iff (wellFormed_run maxLevels before) hbefore price 0).mp hafter rfl
  · intro hcan before hprefix
    induction before using List.reverseRecOn with
    | nil => exact fun level hlevel ↦ absurd hlevel List.not_mem_nil
    | append_singleton before u ih =>
      obtain ⟨after, hupdates⟩ := hprefix
      have hbefore := ih ⟨u :: after, by simp [← hupdates]⟩
      rw [run, setAll_concat]
      apply (noZero_set_iff (wellFormed_run maxLevels before) hbefore u.1 u.2).mpr
      intro hdepth
      apply hcan before u.1 after
      rw [← hupdates, ← hdepth, List.append_assoc, List.singleton_append]

/-- A full ladder, and a price above both of its bids that is not in it. Deleting the price leaves
it there with nothing offered, and the second bid is gone. -/
theorem deletion_evicts :
    (run 2 [(10001, 25), (10000, 100)] : BidLadder ℤ ℤ).levels =
        [⟨10001, 25⟩, ⟨10000, 100⟩] ∧
      (run 2 [(10001, 25), (10000, 100), (10002, 0)] : BidLadder ℤ ℤ).levels =
        [⟨10002, 0⟩, ⟨10001, 25⟩] ∧
      ¬(run 2 [(10001, 25), (10000, 100)] : BidLadder ℤ ℤ).DeletesOnly 10002 := by
  rw [DeletesOnly]
  decide +kernel

end BidLadder

end Types

end BoostConnector
