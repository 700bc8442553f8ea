import Mathlib.Data.List.Sort

/-!
# Sorting by key

Entries of a key and a payload, sorted by their keys. Where the keys are distinct the result depends
on the set of entries only (`sortByKey_eq_of_perm`), and the sort commutes with every map that
leaves the keys alone (`sortByKey_map`).
-/

namespace BoostConnector

namespace Collections

variable {α β γ κ : Type*} [LinearOrder κ]

def sortByKey (l : List (κ × β)) : List (κ × β) := l.insertionSort fun a b ↦ a.1 ≤ b.1

@[simp] theorem mem_sortByKey {l : List (κ × β)} {a : κ × β} : a ∈ sortByKey l ↔ a ∈ l :=
  List.mem_insertionSort _

theorem pairwise_sortByKey (l : List (κ × β)) : (sortByKey l).Pairwise fun a b ↦ a.1 ≤ b.1 := by
  have : Std.Total fun a b : κ × β ↦ a.1 ≤ b.1 := ⟨fun a b ↦ le_total a.1 b.1⟩
  have : IsTrans (κ × β) fun a b ↦ a.1 ≤ b.1 := ⟨fun _ _ _ hab hbc ↦ hab.trans hbc⟩
  exact List.pairwise_insertionSort _ l

theorem sortByKey_eq_of_perm {l l' : List (κ × β)} (h : l.Perm l')
    (hl : (l.map Prod.fst).Nodup) : sortByKey l = sortByKey l' := by
  have hperm : (sortByKey l).Perm (sortByKey l') :=
    (List.perm_insertionSort _ l).trans (h.trans (List.perm_insertionSort _ l').symm)
  refine hperm.eq_of_pairwise (fun a b ha hb hab hba ↦ ?_) (pairwise_sortByKey l)
    (pairwise_sortByKey l')
  -- equal keys belong to one entry
  have hb : b ∈ l := h.mem_iff.mpr (mem_sortByKey.mp hb)
  exact List.inj_on_of_nodup_map hl (mem_sortByKey.mp ha) hb (le_antisymm hab hba)

theorem sortByKey_map (f : κ × β → κ × γ) (hf : ∀ a, (f a).1 = a.1) (l : List (κ × β)) :
    sortByKey (l.map f) = (sortByKey l).map f :=
  (List.map_insertionSort _ _ f l fun a _ b _ ↦ by rw [hf, hf]).symm

omit [LinearOrder κ] in
/-- Two concatenations of blocks of pairwise the same lengths agree only if their blocks do. -/
theorem flatMap_eq_flatMap_iff {l : List α} {f g : α → List β}
    (h : ∀ a ∈ l, (f a).length = (g a).length) :
    l.flatMap f = l.flatMap g ↔ ∀ a ∈ l, f a = g a := by
  rw [← List.map_inj_left, List.eq_iff_flatten_eq, ← List.flatMap_def, ← List.flatMap_def]
  refine (and_iff_left ?_).symm
  rw [List.map_map, List.map_map]
  exact List.map_congr_left h

end Collections

end BoostConnector
