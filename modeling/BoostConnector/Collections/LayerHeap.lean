import BoostConnector.Collections.ListPool
import Mathlib.Data.Nat.Init
import Mathlib.Logic.Function.Basic
import Mathlib.Order.Nat

/-!
# A heap of layers

A layer holds the values of some keys and may refer to a parent layer, in which a lookup goes on if
the layer does not hold the key. Layers are allocated one after the other and a parent is chosen at
allocation, so every parent is older than its child and lookups end.

A lookup is the search for a first hit along the chain of ancestors (`query_eq_findSome?`). So an
assignment is seen from a layer just when the lookup of that key gets as far as the assigned layer
(`query_set_of_not_visited`).
-/

namespace BoostConnector

namespace Collections

/-! ## The elements that a search looks at -/

variable {α β : Type*}

/-- The elements up to the first hit, and the hit. -/
def searched (f : α → Option β) : List α → List α
  | [] => []
  | a :: l => if (f a).isSome then [a] else a :: searched f l

theorem mem_of_mem_searched {f : α → Option β} {l : List α} {a : α} (h : a ∈ searched f l) :
    a ∈ l := by
  induction l with
  | nil => exact h
  | cons b l ih =>
    rw [searched] at h
    split_ifs at h
    · exact List.mem_cons.mpr (.inl (List.mem_singleton.mp h))
    · exact List.mem_cons.mpr ((List.mem_cons.mp h).imp_right ih)

/-- What lies behind the first hit does not matter. -/
theorem findSome?_congr_of_searched {f g : α → Option β} {l : List α}
    (h : ∀ a ∈ searched f l, g a = f a) : l.findSome? g = l.findSome? f := by
  induction l with
  | nil => rfl
  | cons a l ih =>
    rw [searched] at h
    rw [List.findSome?_cons, List.findSome?_cons]
    cases hf : f a with
    | some b =>
      rw [hf, Option.isSome_some, if_pos rfl] at h
      rw [h a List.mem_cons_self, hf]
    | none =>
      rw [hf, Option.isSome_none, if_neg Bool.false_ne_true] at h
      rw [h a List.mem_cons_self, hf]
      exact ih fun b hb ↦ h b (List.mem_cons_of_mem a hb)

/-! ## Layers -/

structure Layer (κ ν : Type*) where
  parent : Option ℕ
  entries : κ → Option ν

/-- Give the key a value, whether the layer held one or not. -/
def Layer.set {κ ν : Type*} [DecidableEq κ] (l : Layer κ ν) (key : κ) (value : ν) : Layer κ ν :=
  { l with entries := Function.update l.entries key (some value) }

structure LayerHeap (κ ν : Type*) where
  layers : List (Layer κ ν)
  /-- Every parent is older than its child. -/
  parent_lt : ∀ (i : ℕ) (l : Layer κ ν), layers[i]? = some l → ∀ p ∈ l.parent, p < i

namespace LayerHeap

variable {κ ν : Type*}

def empty : LayerHeap κ ν := ⟨[], by simp⟩

variable (h : LayerHeap κ ν)

def size : ℕ := h.layers.length

def parent? (i : ℕ) : Option ℕ := h.layers[i]?.bind Layer.parent

def entryAt (i : ℕ) (key : κ) : Option ν := h.layers[i]?.bind fun l ↦ l.entries key

theorem parent?_lt {i p : ℕ} (hp : h.parent? i = some p) : p < i := by
  obtain ⟨l, hl, hlp⟩ := Option.bind_eq_some_iff.mp hp
  exact h.parent_lt i l hl p hlp

theorem parent?_lt_size {i p : ℕ} (hp : h.parent? i = some p) : p < h.size := by
  obtain ⟨l, hl, -⟩ := Option.bind_eq_some_iff.mp hp
  exact (h.parent?_lt hp).trans (List.getElem?_eq_some_iff.mp hl).1

/-- The value of the key in the layer, or in the nearest ancestor that holds one. -/
def query (i : ℕ) (key : κ) : Option ν :=
  match h.entryAt i key with
  | some v => some v
  | none =>
    match _hp : h.parent? i with
    | some p => query p key
    | none => none
termination_by i
decreasing_by exact h.parent?_lt _hp

/-- The layer and its ancestors. -/
def chain (i : ℕ) : List ℕ :=
  i :: match _hp : h.parent? i with
    | some p => chain p
    | none => []
termination_by i
decreasing_by exact h.parent?_lt _hp

/-- The layers that the lookup of a key looks into. -/
def visited (i : ℕ) (key : κ) : List ℕ := searched (h.entryAt · key) (h.chain i)

variable {h}

theorem query_eq (i : ℕ) (key : κ) :
    h.query i key = (h.entryAt i key).or ((h.parent? i).bind (h.query · key)) := by
  rw [query]
  cases h.entryAt i key with
  | some v => rfl
  | none =>
    dsimp only
    split
    · rename_i p hp
      rw [hp, Option.none_or, Option.bind_some]
    · rename_i hp
      rw [hp, Option.none_or, Option.bind_none]

theorem chain_eq (i : ℕ) : h.chain i = i :: (h.parent? i).elim [] h.chain := by
  rw [chain]
  split
  · rename_i p hp
    rw [hp, Option.elim_some]
  · rename_i hp
    rw [hp, Option.elim_none]

/-- **A lookup is a search** along the chain. -/
theorem query_eq_findSome? (i : ℕ) (key : κ) :
    h.query i key = (h.chain i).findSome? (h.entryAt · key) := by
  induction i using Nat.strong_induction_on with
  | _ i ih =>
    rw [query_eq, chain_eq, List.findSome?_cons]
    cases h.entryAt i key with
    | some v => rfl
    | none =>
      cases hp : h.parent? i with
      | some p => exact ih p (h.parent?_lt hp)
      | none => rfl

/-- The chain does not depend on what the layers hold. -/
theorem chain_congr {h' : LayerHeap κ ν} {i : ℕ} (hparent : ∀ j ≤ i, h'.parent? j = h.parent? j) :
    h'.chain i = h.chain i := by
  induction i using Nat.strong_induction_on with
  | _ i ih =>
    rw [chain_eq, chain_eq, hparent i le_rfl]
    cases hp : h.parent? i with
    | none => rfl
    | some p =>
      have hlt := h.parent?_lt hp
      rw [Option.elim_some, Option.elim_some, ih p hlt fun j hj ↦ hparent j (hj.trans hlt.le)]

theorem le_of_mem_chain {i a : ℕ} (ha : a ∈ h.chain i) : a ≤ i := by
  induction i using Nat.strong_induction_on with
  | _ i ih =>
    rw [chain_eq] at ha
    rcases List.mem_cons.mp ha with rfl | ha
    · exact le_rfl
    · cases hp : h.parent? i with
      | none => simp [hp] at ha
      | some p =>
        have hlt := h.parent?_lt hp
        rw [hp, Option.elim_some] at ha
        exact (ih p hlt ha).trans hlt.le

/-- A layer without children is in no chain but its own. -/
theorem eq_of_mem_chain {i a : ℕ} (hchildless : ∀ j, h.parent? j ≠ some a) (ha : a ∈ h.chain i) :
    a = i := by
  induction i using Nat.strong_induction_on with
  | _ i ih =>
    rw [chain_eq] at ha
    rcases List.mem_cons.mp ha with rfl | ha
    · rfl
    · cases hp : h.parent? i with
      | none => simp [hp] at ha
      | some p =>
        rw [hp, Option.elim_some] at ha
        exact absurd (hp.trans (congrArg some (ih p (h.parent?_lt hp) ha).symm)) (hchildless i)

/-! ## Allocation -/

/-- A new layer that holds nothing. -/
def push (h : LayerHeap κ ν) (parent : Option ℕ) (hparent : ∀ p ∈ parent, p < h.size) :
    LayerHeap κ ν where
  layers := h.layers ++ [⟨parent, fun _ ↦ none⟩]
  parent_lt i l hl p hp := by
    rcases getElem?_concat_eq_some hl with hl | ⟨rfl, rfl⟩
    · exact h.parent_lt i l hl p hp
    · exact hparent p hp

variable {parent : Option ℕ} {hparent : ∀ p ∈ parent, p < h.size}

@[simp] theorem size_push : (h.push parent hparent).size = h.size + 1 := by
  simp [push, size]

theorem parent?_push_of_lt {i : ℕ} (hi : i < h.size) :
    (h.push parent hparent).parent? i = h.parent? i := by
  rw [parent?, push, List.getElem?_append_left hi, parent?]

theorem parent?_push_eq_some (hparent : ∀ p ∈ parent, p < h.size) {i p : ℕ}
    (hp : (h.push parent hparent).parent? i = some p) : h.parent? i = some p ∨ parent = some p := by
  obtain ⟨l, hl, hlp⟩ := Option.bind_eq_some_iff.mp hp
  rcases getElem?_concat_eq_some hl with hl | ⟨-, rfl⟩
  · exact .inl (Option.bind_eq_some_iff.mpr ⟨l, hl, hlp⟩)
  · exact .inr hlp

theorem entryAt_push_of_lt {i : ℕ} (hi : i < h.size) (key : κ) :
    (h.push parent hparent).entryAt i key = h.entryAt i key := by
  rw [entryAt, push, List.getElem?_append_left hi, entryAt]

@[simp] theorem parent?_push_size : (h.push parent hparent).parent? h.size = parent := by
  rw [parent?, push, size, List.getElem?_concat_length, Option.bind_some]

@[simp] theorem entryAt_push_size (key : κ) :
    (h.push parent hparent).entryAt h.size key = none := by
  rw [entryAt, push, size, List.getElem?_concat_length, Option.bind_some]

theorem chain_push {i : ℕ} (hi : i < h.size) : (h.push parent hparent).chain i = h.chain i :=
  chain_congr fun _ hj ↦ parent?_push_of_lt (hj.trans_lt hi)

/-- Allocation changes no answer. -/
theorem query_push (hparent : ∀ p ∈ parent, p < h.size) {i : ℕ} (hi : i < h.size) (key : κ) :
    (h.push parent hparent).query i key = h.query i key := by
  rw [query_eq_findSome?, query_eq_findSome?, chain_push hi]
  refine findSome?_congr_of_searched fun a ha ↦ entryAt_push_of_lt ?_ key
  exact (le_of_mem_chain (mem_of_mem_searched ha)).trans_lt hi

/-- A new layer answers as its parent. -/
theorem query_push_size (hparent : ∀ p ∈ parent, p < h.size) (key : κ) :
    (h.push parent hparent).query h.size key = parent.bind (h.query · key) := by
  rw [query_eq, entryAt_push_size, Option.none_or, parent?_push_size]
  cases parent with
  | none => rfl
  | some p => exact query_push hparent (hparent p rfl) key

/-! ## Assignment -/

variable [DecidableEq κ]

def set (h : LayerHeap κ ν) (a : ℕ) (key : κ) (value : ν) : LayerHeap κ ν where
  layers := h.layers.modify a (·.set key value)
  parent_lt i l hl p hp := by
    rw [List.getElem?_modify] at hl
    obtain ⟨old, hold, rfl⟩ := Option.map_eq_some_iff.mp hl
    refine h.parent_lt i old hold p ?_
    split_ifs at hp
    · exact hp
    · exact hp

variable {a i : ℕ} {key : κ} {value : ν}

theorem layers_set : (h.set a key value).layers[i]?
    = h.layers[i]?.map fun l ↦ if a = i then l.set key value else l :=
  List.getElem?_modify ..

@[simp] theorem size_set : (h.set a key value).size = h.size := List.length_modify ..

@[simp] theorem parent?_set : (h.set a key value).parent? i = h.parent? i := by
  rw [parent?, layers_set, Option.bind_map, parent?]
  refine Option.bind_congr fun l _ ↦ ?_
  rw [Function.comp_apply]
  split_ifs
  · rfl
  · rfl

theorem entryAt_set_self (ha : a < h.size) :
    (h.set a key value).entryAt a key = some value := by
  obtain ⟨l, hl⟩ : ∃ l, h.layers[a]? = some l := ⟨_, List.getElem?_eq_getElem ha⟩
  rw [entryAt, layers_set, hl, Option.map_some, if_pos rfl, Option.bind_some]
  exact Function.update_self ..

theorem entryAt_set_of_ne (hi : i ≠ a) (key' : κ) :
    (h.set a key value).entryAt i key' = h.entryAt i key' := by
  rw [entryAt, layers_set, Option.bind_map, entryAt]
  refine Option.bind_congr fun l _ ↦ ?_
  rw [Function.comp_apply, if_neg hi.symm]

theorem entryAt_set_of_ne_key {key' : κ} (hkey : key' ≠ key) :
    (h.set a key value).entryAt i key' = h.entryAt i key' := by
  rw [entryAt, layers_set, Option.bind_map, entryAt]
  refine Option.bind_congr fun l _ ↦ ?_
  rw [Function.comp_apply]
  split_ifs
  · exact Function.update_of_ne hkey ..
  · rfl

theorem chain_set : (h.set a key value).chain i = h.chain i := chain_congr fun _ _ ↦ parent?_set

/-- The assigned layer answers with the value. -/
theorem query_set_self (ha : a < h.size) : (h.set a key value).query a key = some value := by
  rw [query_eq, entryAt_set_self ha, Option.some_or]

/-- Other keys are looked up as before. -/
theorem query_set_of_ne_key {key' : κ} (hkey : key' ≠ key) :
    (h.set a key value).query i key' = h.query i key' := by
  rw [query_eq_findSome?, query_eq_findSome?, chain_set]
  exact findSome?_congr_of_searched fun b _ ↦ entryAt_set_of_ne_key hkey

/-- **An assignment to a layer that the lookup does not get to** changes nothing for it. -/
theorem query_set_of_not_visited (ha : a ∉ h.visited i key) :
    (h.set a key value).query i key = h.query i key := by
  rw [query_eq_findSome?, query_eq_findSome?, chain_set]
  refine findSome?_congr_of_searched fun b hb ↦ entryAt_set_of_ne ?_ key
  rintro rfl
  exact ha hb

/-- An assignment to a layer without children is seen through that layer only. -/
theorem query_set_of_childless (hchildless : ∀ j, h.parent? j ≠ some a) (hi : i ≠ a) (key' : κ) :
    (h.set a key value).query i key' = h.query i key' := by
  rw [query_eq_findSome?, query_eq_findSome?, chain_set]
  refine findSome?_congr_of_searched fun b hb ↦ entryAt_set_of_ne ?_ key'
  rintro rfl
  exact hi (eq_of_mem_chain hchildless (mem_of_mem_searched hb)).symm

end LayerHeap

end Collections

end BoostConnector
