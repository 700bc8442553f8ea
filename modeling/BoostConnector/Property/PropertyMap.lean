import BoostConnector.Collections.LayerHeap
import BoostConnector.Transition.Run

/-!
# Property maps

A `property_map` refers to a layer of values that is shared with the maps made from it: `mutate`
allocates a layer whose parent is the layer of the map, `set` writes into the layer of a mutable
map, and `fix` hands that layer over to a `property_map`.

A program is a list of calls. The handles of the program are numbered in the order of their creation
and a handle is never reused: an assignment is the destruction of one handle and the creation of
another, and destroying a handle leaves the layers alone. The layers live on a heap. All addresses
of a state are addresses of the heap, by the fields of `State`.
-/

namespace BoostConnector

namespace Property

open Collections Transition

/-- A handle. A move leaves the source without a layer, as the default constructor does. -/
structure PropertyMap where
  impl : Option ℕ
  movedFrom : Bool := false
  deriving DecidableEq

structure MutablePropertyMap where
  impl : Option ℕ
  deriving DecidableEq

structure State (κ ν : Type*) where
  layers : LayerHeap κ ν := LayerHeap.empty
  maps : List PropertyMap := []
  mutables : List MutablePropertyMap := []
  maps_lt : ∀ m ∈ maps, ∀ a ∈ m.impl, a < layers.size := by simp
  mutables_lt : ∀ m ∈ mutables, ∀ a ∈ m.impl, a < layers.size := by simp

inductive Command (κ ν : Type*) where
  /-- `property_map()` -/
  | newMap
  /-- `mutable_property_map()` -/
  | newMutable
  | copyMap (i : ℕ)
  | moveMap (i : ℕ)
  | copyMutable (j : ℕ)
  | moveMutable (j : ℕ)
  | mutate (i : ℕ)
  | set (j : ℕ) (key : κ) (value : ν)
  | fix (j : ℕ)
  | query (i : ℕ) (key : κ)

namespace State

variable {κ ν : Type*} (s : State κ ν)

/-! ## Calls -/

/-- A new `property_map` with the layer. -/
def addMap (impl : Option ℕ) (himpl : ∀ a ∈ impl, a < s.layers.size) : State κ ν :=
  { s with
    maps := s.maps ++ [{ impl := impl }]
    maps_lt := List.forall_mem_append.mpr ⟨s.maps_lt, List.forall_mem_singleton.mpr himpl⟩ }

/-- A new `mutable_property_map` with the layer. -/
def addMutable (impl : Option ℕ) (himpl : ∀ a ∈ impl, a < s.layers.size) : State κ ν :=
  { s with
    mutables := s.mutables ++ [{ impl := impl }]
    mutables_lt := List.forall_mem_append.mpr ⟨s.mutables_lt, List.forall_mem_singleton.mpr himpl⟩ }

/-- The constructor of `mutable_property_map`: a handle to a new layer. -/
def addLayer (parent : Option ℕ) (hparent : ∀ p ∈ parent, p < s.layers.size) : State κ ν where
  layers := s.layers.push parent hparent
  maps := s.maps
  mutables := s.mutables ++ [{ impl := some s.layers.size }]
  maps_lt m hm a ha := by
    rw [LayerHeap.size_push]
    exact Nat.lt_succ_of_lt (s.maps_lt m hm a ha)
  mutables_lt m hm a ha := by
    rw [LayerHeap.size_push]
    rcases List.mem_append.mp hm with hm | hm
    · exact Nat.lt_succ_of_lt (s.mutables_lt m hm a ha)
    · rw [List.mem_singleton.mp hm] at ha
      exact Option.some_inj.mp ha ▸ Nat.lt_succ_self _

def clearMap (i : ℕ) : State κ ν :=
  { s with
    maps := s.maps.set i { impl := none, movedFrom := true }
    maps_lt := fun m hm ↦ (List.mem_or_eq_of_mem_set hm).elim (s.maps_lt m) fun h ↦ by simp [h] }

def clearMutable (j : ℕ) : State κ ν :=
  { s with
    mutables := s.mutables.set j { impl := none }
    mutables_lt := fun m hm ↦
      (List.mem_or_eq_of_mem_set hm).elim (s.mutables_lt m) fun h ↦ by simp [h] }

/-- What a `query` finds, `some none` for a null result. Undefined without a layer: then the call
dereferences a null pointer. -/
def query (i : ℕ) (key : κ) : Option (Option ν) :=
  s.maps[i]?.bind fun m ↦ m.impl.map fun a ↦ s.layers.query a key

variable {s} in
theorem query_of_maps {i : ℕ} {m : PropertyMap} (hm : s.maps[i]? = some m) (key : κ) :
    s.query i key = m.impl.map fun a ↦ s.layers.query a key := by
  rw [query, hm, Option.bind_some]

variable [DecidableEq κ]

def assign (a : ℕ) (key : κ) (value : ν) : State κ ν where
  layers := s.layers.set a key value
  maps := s.maps
  mutables := s.mutables
  maps_lt m hm b hb := by
    rw [LayerHeap.size_set]
    exact s.maps_lt m hm b hb
  mutables_lt m hm b hb := by
    rw [LayerHeap.size_set]
    exact s.mutables_lt m hm b hb

/-- One call, undefined on a handle that the program does not have and where it dereferences a null
pointer. -/
def step : Command κ ν → State κ ν → Option (State κ ν)
  | .newMap, s => some (s.addMap none (by simp))
  | .newMutable, s => some (s.addLayer none (by simp))
  | .copyMap i, s =>
    s.maps[i]?.pmap (fun m hm ↦ s.addMap m.impl (s.maps_lt m hm)) fun _ ↦ List.mem_of_getElem?
  | .moveMap i, s =>
    s.maps[i]?.pmap (fun m hm ↦ (s.addMap m.impl (s.maps_lt m hm)).clearMap i)
      fun _ ↦ List.mem_of_getElem?
  | .copyMutable j, s =>
    s.mutables[j]?.pmap (fun m hm ↦ s.addMutable m.impl (s.mutables_lt m hm))
      fun _ ↦ List.mem_of_getElem?
  | .moveMutable j, s =>
    s.mutables[j]?.pmap (fun m hm ↦ (s.addMutable m.impl (s.mutables_lt m hm)).clearMutable j)
      fun _ ↦ List.mem_of_getElem?
  | .mutate i, s =>
    s.maps[i]?.pmap (fun m hm ↦ s.addLayer m.impl (s.maps_lt m hm)) fun _ ↦ List.mem_of_getElem?
  | .set j key value, s =>
    s.mutables[j]?.bind fun m ↦ m.impl.map fun a ↦ s.assign a key value
  | .fix j, s =>
    s.mutables[j]?.pmap (fun m hm ↦ (s.addMap m.impl (s.mutables_lt m hm)).clearMutable j)
      fun _ ↦ List.mem_of_getElem?
  | .query i key, s => (s.query i key).map fun _ ↦ s

def run (program : List (Command κ ν)) : Option (State κ ν) := exec step program {}

/-! ## What a call can do -/

variable {s}

/-- The outcome of a call, with what it found. -/
inductive Call (s : State κ ν) : Command κ ν → State κ ν → Prop
  | newMap : Call s .newMap (s.addMap none (by simp))
  | newMutable : Call s .newMutable (s.addLayer none (by simp))
  | copyMap {i : ℕ} {m : PropertyMap} (hi : s.maps[i]? = some m)
      (himpl : ∀ a ∈ m.impl, a < s.layers.size) : Call s (.copyMap i) (s.addMap m.impl himpl)
  | moveMap {i : ℕ} {m : PropertyMap} (hi : s.maps[i]? = some m)
      (himpl : ∀ a ∈ m.impl, a < s.layers.size) :
      Call s (.moveMap i) ((s.addMap m.impl himpl).clearMap i)
  | copyMutable {j : ℕ} {m : MutablePropertyMap} (hj : s.mutables[j]? = some m)
      (himpl : ∀ a ∈ m.impl, a < s.layers.size) :
      Call s (.copyMutable j) (s.addMutable m.impl himpl)
  | moveMutable {j : ℕ} {m : MutablePropertyMap} (hj : s.mutables[j]? = some m)
      (himpl : ∀ a ∈ m.impl, a < s.layers.size) :
      Call s (.moveMutable j) ((s.addMutable m.impl himpl).clearMutable j)
  | mutate {i : ℕ} {m : PropertyMap} (hi : s.maps[i]? = some m)
      (himpl : ∀ a ∈ m.impl, a < s.layers.size) : Call s (.mutate i) (s.addLayer m.impl himpl)
  | set {j a : ℕ} {key : κ} {value : ν} (hj : s.mutables[j]? = some { impl := some a }) :
      Call s (.set j key value) (s.assign a key value)
  | fix {j : ℕ} {m : MutablePropertyMap} (hj : s.mutables[j]? = some m)
      (himpl : ∀ a ∈ m.impl, a < s.layers.size) :
      Call s (.fix j) ((s.addMap m.impl himpl).clearMutable j)
  | query {i : ℕ} {key : κ} {answer : Option ν} (hanswer : s.query i key = some answer) :
      Call s (.query i key) s

theorem call_of_step {command : Command κ ν} {t : State κ ν} (h : step command s = some t) :
    Call s command t := by
  cases command with
  | newMap =>
    obtain rfl := Option.some_inj.mp h
    exact .newMap
  | newMutable =>
    obtain rfl := Option.some_inj.mp h
    exact .newMutable
  | copyMap i =>
    rw [step, Option.pmap_eq_some_iff] at h
    obtain ⟨m, hm, hi, rfl⟩ := h
    exact .copyMap hi _
  | moveMap i =>
    rw [step, Option.pmap_eq_some_iff] at h
    obtain ⟨m, hm, hi, rfl⟩ := h
    exact .moveMap hi _
  | copyMutable j =>
    rw [step, Option.pmap_eq_some_iff] at h
    obtain ⟨m, hm, hj, rfl⟩ := h
    exact .copyMutable hj _
  | moveMutable j =>
    rw [step, Option.pmap_eq_some_iff] at h
    obtain ⟨m, hm, hj, rfl⟩ := h
    exact .moveMutable hj _
  | mutate i =>
    rw [step, Option.pmap_eq_some_iff] at h
    obtain ⟨m, hm, hi, rfl⟩ := h
    exact .mutate hi _
  | set j key value =>
    obtain ⟨⟨impl⟩, hj, h⟩ := Option.bind_eq_some_iff.mp h
    obtain ⟨a, rfl, rfl⟩ := Option.map_eq_some_iff.mp h
    exact .set hj
  | fix j =>
    rw [step, Option.pmap_eq_some_iff] at h
    obtain ⟨m, hm, hj, rfl⟩ := h
    exact .fix hj _
  | query i key =>
    obtain ⟨answer, hanswer, rfl⟩ := Option.map_eq_some_iff.mp h
    exact .query hanswer

end State

end Property

end BoostConnector
