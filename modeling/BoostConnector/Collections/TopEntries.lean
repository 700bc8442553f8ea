import Mathlib.Data.Set.Insert
import Mathlib.Order.Lattice
import Mathlib.Data.List.Perm.Subperm

/-!
# The largest entries of a set

`IsTop key n S l` says that `l` lists the `n` entries of `S` with the largest keys, the largest
first, or all of `S` if it has no more than `n` entries. There is one such list at most
(`IsTop.unique`).

A map is taken as the set of its entries. To write an entry, `put key a S`, is to drop the entry of
the same key and to add the new one. The list of the largest entries can be kept up to date under
writes without looking at the rest of the set: an entry that fell out of the list is below all that
are in it, and stays so.
-/

namespace BoostConnector

namespace Collections

variable {α κ : Type*} [LinearOrder κ] {key : α → κ}

/-- Keys in strictly decreasing order. -/
def Decreasing (key : α → κ) (l : List α) : Prop := l.Pairwise fun a b ↦ key b < key a

/-- The map `S` after writing the entry `a`. -/
def put (key : α → κ) (a : α) (S : Set α) : Set α := {b | b = a ∨ b ∈ S ∧ key b ≠ key a}

structure IsTop (key : α → κ) (n : ℕ) (S : Set α) (l : List α) : Prop where
  decreasing : Decreasing key l
  length_le : l.length ≤ n
  mem : ∀ a ∈ l, a ∈ S
  /-- What is left out is smaller, and left out for want of room. -/
  complete : ∀ a ∈ S, a ∈ l ∨ l.length = n ∧ ∀ b ∈ l, key a < key b

/-! ## Decreasing lists -/

theorem Decreasing.nodup {l : List α} (h : Decreasing key l) : l.Nodup :=
  h.imp fun hlt heq ↦ absurd (heq ▸ hlt) (lt_irrefl _)

theorem Decreasing.take {l : List α} (h : Decreasing key l) (n : ℕ) : Decreasing key (l.take n) :=
  h.sublist (List.take_sublist n l)

theorem decreasing_append {l₁ l₂ : List α} :
    Decreasing key (l₁ ++ l₂) ↔
      Decreasing key l₁ ∧ Decreasing key l₂ ∧ ∀ a ∈ l₁, ∀ b ∈ l₂, key b < key a :=
  List.pairwise_append

/-- A decreasing list is split in front of the first entry that is not above `k`. -/
theorem Decreasing.split {l : List α} (h : Decreasing key l) (k : κ) :
    ∃ above rest, l = above ++ rest ∧ (∀ a ∈ above, k < key a) ∧ ∀ a ∈ rest, key a ≤ k := by
  induction l with
  | nil => exact ⟨[], [], rfl, by simp, by simp⟩
  | cons a l ih =>
    obtain ⟨ha, hl⟩ := List.pairwise_cons.mp h
    by_cases hk : k < key a
    · obtain ⟨above, rest, rfl, habove, hrest⟩ := ih hl
      exact ⟨a :: above, rest, rfl, List.forall_mem_cons.mpr ⟨hk, habove⟩, hrest⟩
    · refine ⟨[], a :: l, rfl, by simp, List.forall_mem_cons.mpr ⟨not_lt.mp hk, fun b hb ↦ ?_⟩⟩
      exact (ha b hb).le.trans (not_lt.mp hk)

theorem Decreasing.erase {above below : List α} {a : α}
    (h : Decreasing key (above ++ a :: below)) : Decreasing key (above ++ below) :=
  h.sublist ((List.sublist_cons_self a below).append_left above)

/-- An entry fits in between what is above and what is below it. -/
theorem Decreasing.insert {above below : List α} {a : α} (h : Decreasing key (above ++ below))
    (habove : ∀ b ∈ above, key a < key b) (hbelow : ∀ b ∈ below, key b < key a) :
    Decreasing key (above ++ a :: below) := by
  obtain ⟨h₁, h₂, hlt⟩ := decreasing_append.mp h
  refine decreasing_append.mpr ⟨h₁, List.pairwise_cons.mpr ⟨hbelow, h₂⟩, fun b hb c hc ↦ ?_⟩
  rcases List.mem_cons.mp hc with rfl | hc
  · exact habove b hb
  · exact hlt b hb c hc

/-- What is cut off a decreasing list is below what is kept. -/
theorem Decreasing.lt_of_mem_drop {l : List α} (h : Decreasing key l) {n : ℕ} {a b : α}
    (ha : a ∈ l.take n) (hb : b ∈ l.drop n) : key b < key a := by
  rw [← List.take_append_drop n l] at h
  exact (decreasing_append.mp h).2.2 a ha b hb

/-- A decreasing list is determined by its entries. -/
theorem Decreasing.eq_of_mem_iff {l l' : List α} (h : Decreasing key l) (h' : Decreasing key l')
    (hmem : ∀ a, a ∈ l ↔ a ∈ l') : l = l' := by
  have hperm := (List.perm_ext_iff_of_nodup h.nodup h'.nodup).mpr hmem
  exact hperm.eq_of_pairwise (fun a b _ _ hab hba ↦ absurd hab hba.asymm) h h'

/-! ## The largest entries -/

namespace IsTop

variable {n : ℕ} {S : Set α} {l l' : List α}

theorem subset (h : IsTop key n S l) (h' : IsTop key n S l') : ∀ a ∈ l, a ∈ l' := by
  intro a ha
  rcases h'.complete a (h.mem a ha) with ha' | ⟨hfull, hlt⟩
  · exact ha'
  · -- `l'` is full of entries above `a`, which leaves no room for `a` in `l`
    have hsub : l' ⊆ l := by
      intro b hb
      rcases h.complete b (h'.mem b hb) with hb | ⟨-, hb'⟩
      · exact hb
      · exact absurd (hb' a ha) (hlt b hb).asymm
    have hperm := (List.subperm_of_subset h'.decreasing.nodup hsub).perm_of_length_le
      (hfull.symm ▸ h.length_le)
    exact hperm.mem_iff.mpr ha

/-- **Uniqueness.** -/
theorem unique (h : IsTop key n S l) (h' : IsTop key n S l') : l = l' :=
  h.decreasing.eq_of_mem_iff h'.decreasing fun a ↦ ⟨h.subset h' a, h'.subset h a⟩

/-- A write to a key of the list. -/
theorem put_replace {above below : List α} {a b : α} (h : IsTop key n S (above ++ b :: below))
    (hkey : key b = key a) : IsTop key n (put key a S) (above ++ a :: below) := by
  obtain ⟨-, h₂, hlt⟩ := decreasing_append.mp h.decreasing
  have hb := (List.pairwise_cons.mp h₂).1
  have habove : ∀ c ∈ above, key a < key c := fun c hc ↦ hkey ▸ hlt c hc b List.mem_cons_self
  have hbelow : ∀ c ∈ below, key c < key a := fun c hc ↦ hkey ▸ hb c hc
  have hmem : ∀ c, c ∈ above ∨ c ∈ below → c ∈ S ∧ key c ≠ key a := by
    rintro c (hc | hc)
    · exact ⟨h.mem c (by simp [hc]), (habove c hc).ne'⟩
    · exact ⟨h.mem c (by simp [hc]), (hbelow c hc).ne⟩
  have hlen : (above ++ a :: below).length = (above ++ b :: below).length := by simp
  constructor
  · exact h.decreasing.erase.insert habove hbelow
  · exact hlen ▸ h.length_le
  · intro c hc
    rw [List.mem_append, List.mem_cons, or_left_comm] at hc
    exact hc.imp_right (hmem c)
  · rintro c (rfl | ⟨hc, hne⟩)
    · simp
    · rcases h.complete c hc with hc | ⟨hfull, hc⟩
      · left
        rw [List.mem_append, List.mem_cons] at hc ⊢
        exact hc.imp_right (Or.imp_left fun heq ↦ absurd (heq ▸ hkey) hne)
      · right
        refine ⟨hlen.trans hfull, fun d hd ↦ ?_⟩
        rw [List.mem_append, List.mem_cons] at hd
        rcases hd with hd | rfl | hd
        · exact hc d (by simp [hd])
        · exact hkey ▸ hc b (by simp)
        · exact hc d (by simp [hd])

/-- A write to a key that is not in the list. If the list was full, the last one falls out. -/
theorem put_insert {above below : List α} {a : α} (h : IsTop key n S (above ++ below))
    (habove : ∀ b ∈ above, key a < key b) (hbelow : ∀ b ∈ below, key b < key a) :
    IsTop key n (put key a S) ((above ++ a :: below).take n) := by
  have hdec := h.decreasing.insert habove hbelow
  have hmem : ∀ c ∈ above ++ a :: below, c = a ∨ c ∈ above ++ below := by
    intro c hc
    simpa [or_left_comm] using hc
  constructor
  · exact hdec.take n
  · exact List.length_take_le n _
  · intro c hc
    rcases hmem c (List.mem_of_mem_take hc) with rfl | hc
    · exact .inl rfl
    · refine .inr ⟨h.mem c hc, ?_⟩
      rcases List.mem_append.mp hc with hc | hc
      · exact (habove c hc).ne'
      · exact (hbelow c hc).ne
  · intro c hc
    by_cases hin : c ∈ above ++ a :: below
    · rw [← List.take_append_drop n (above ++ a :: below), List.mem_append] at hin
      refine hin.imp_right fun hdrop ↦ ⟨?_, fun b hb ↦ hdec.lt_of_mem_drop hb hdrop⟩
      have hpos := List.length_pos_of_mem hdrop
      rw [List.length_drop] at hpos
      rw [List.length_take]
      omega
    · -- an entry that had fallen out already
      rcases hc with rfl | ⟨hc, -⟩
      · exact absurd (by simp) hin
      rcases h.complete c hc with hc | ⟨hfull, hlt⟩
      · refine absurd ?_ hin
        rw [List.mem_append] at hc
        rw [List.mem_append, List.mem_cons]
        exact hc.imp_right .inr
      right
      have hlen : (above ++ a :: below).length = n + 1 := by
        rw [List.length_append] at hfull
        rw [List.length_append, List.length_cons]
        omega
      refine ⟨by rw [List.length_take, hlen]; omega, fun b hb ↦ ?_⟩
      rcases hmem b (List.mem_of_mem_take hb) with rfl | hbl
      · -- the one that falls out now is below the new entry
        obtain ⟨x, hx⟩ : ∃ x, x ∈ (above ++ b :: below).drop n := by
          apply List.exists_mem_of_length_pos
          rw [List.length_drop, hlen]
          omega
        have hxb := hdec.lt_of_mem_drop hb hx
        rcases hmem x (List.mem_of_mem_drop hx) with rfl | hxl
        · exact absurd hxb (lt_irrefl _)
        · exact (hlt x hxl).trans hxb
      · exact hlt b hbl

end IsTop

end Collections

end BoostConnector
