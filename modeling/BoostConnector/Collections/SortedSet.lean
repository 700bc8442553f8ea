import Mathlib.Order.Lattice

/-!
# Sorted sets

A finite set of elements of a linear order, kept as the strictly increasing list that an iteration
over it visits. The representation is unique, so that two sets with the same elements are equal
(`SortedSet.ext`) and a traversal depends on the elements only.
-/

namespace BoostConnector

namespace Collections

variable {α : Type*} [LinearOrder α]

/-! ## Insertion into an increasing list -/

/-- Insert `a` in front of the first larger element, unless it is there already. -/
def insertSorted (a : α) : List α → List α
  | [] => [a]
  | b :: l => if a < b then a :: b :: l else if a = b then b :: l else b :: insertSorted a l

@[simp] theorem mem_insertSorted {a b : α} {l : List α} :
    b ∈ insertSorted a l ↔ b = a ∨ b ∈ l := by
  induction l with
  | nil => simp [insertSorted]
  | cons c l ih =>
    rw [insertSorted]
    split_ifs with hlt heq
    · simp
    · simp [heq]
    · simp [ih, or_left_comm]

theorem pairwise_insertSorted {a : α} {l : List α} (h : l.Pairwise (· < ·)) :
    (insertSorted a l).Pairwise (· < ·) := by
  induction l with
  | nil => simp [insertSorted]
  | cons b l ih =>
    obtain ⟨hb, hl⟩ := List.pairwise_cons.mp h
    rw [insertSorted]
    split_ifs with hlt heq
    · exact h.cons fun c hc ↦ (List.mem_cons.mp hc).elim (· ▸ hlt) fun hc ↦ hlt.trans (hb c hc)
    · exact h
    · refine (ih hl).cons fun c hc ↦ ?_
      rcases mem_insertSorted.mp hc with rfl | hc
      · exact lt_of_le_of_ne (not_lt.mp hlt) (Ne.symm heq)
      · exact hb c hc

/-! ## Sets -/

structure SortedSet (α : Type*) [LinearOrder α] where
  /-- The elements, in the order of iteration. -/
  toList : List α
  sorted : toList.Pairwise (· < ·)

namespace SortedSet

instance : Membership α (SortedSet α) := ⟨fun s a ↦ a ∈ s.toList⟩

instance : EmptyCollection (SortedSet α) := ⟨⟨[], List.Pairwise.nil⟩⟩

@[simp] theorem not_mem_empty (a : α) : a ∉ (∅ : SortedSet α) := List.not_mem_nil

theorem toList_injective {s t : SortedSet α} (h : s.toList = t.toList) : s = t := by
  cases s
  congr

/-- **Extensionality.** The elements determine the order of iteration. -/
theorem ext {s t : SortedSet α} (h : ∀ a, a ∈ s ↔ a ∈ t) : s = t := by
  apply toList_injective
  have hperm : s.toList.Perm t.toList :=
    (List.perm_ext_iff_of_nodup (s.sorted.imp fun hab ↦ hab.ne)
      (t.sorted.imp fun hab ↦ hab.ne)).mpr h
  exact hperm.eq_of_pairwise (fun a b _ _ hab hba ↦ absurd hab hba.asymm) s.sorted t.sorted

def insert (a : α) (s : SortedSet α) : SortedSet α :=
  ⟨insertSorted a s.toList, pairwise_insertSorted s.sorted⟩

@[simp] theorem mem_insert {a b : α} {s : SortedSet α} : b ∈ s.insert a ↔ b = a ∨ b ∈ s :=
  mem_insertSorted

/-- Insert the elements of a list one after the other. -/
def insertMany (s : SortedSet α) (l : List α) : SortedSet α := l.foldl (fun t a ↦ t.insert a) s

@[simp] theorem mem_insertMany {s : SortedSet α} {l : List α} {b : α} :
    b ∈ s.insertMany l ↔ b ∈ s ∨ b ∈ l := by
  induction l generalizing s with
  | nil => simp [insertMany]
  | cons a l ih =>
    rw [insertMany, List.foldl_cons, ← insertMany, ih, mem_insert, List.mem_cons, or_assoc]
    exact or_left_comm

end SortedSet

end Collections

end BoostConnector
