import BoostConnector.Transition.Run
import Mathlib.Data.List.AList

/-!
# Dependency maps

`mutable_dependency_map` collects dependencies by name, `fix` turns it into a `dependency_map`, and
`clone` makes a mutable copy of that. Copies of a `dependency_map` share one `dependency_map_impl`,
and `fix` hands over the one that `set` has written to.

A program is a list of calls on numbered handles. It runs here on implementations with addresses
(`State.run`) and on plain values, where nothing is shared (`Flat.run`). The two agree on every
program (`run_flat`), so no write is ever seen through a handle that it was not made through. A
`mutable_dependency_map` can be neither copied nor moved, and `fix` takes its implementation away,
which is why the one that is written to belongs to one handle alone (`State.Owned`).

The member templates `query` and `require` are not instantiated anywhere; of them the lookup that
both begin with is kept.
-/

namespace BoostConnector

namespace Dependency

open Transition

/-! ## The implementation -/

/-- `dependency_map_impl` -/
structure DependencyMapImpl (κ ν : Type*) where
  map : AList (fun _ : κ ↦ ν) := ∅

namespace DependencyMapImpl

variable {κ ν : Type*} [DecidableEq κ] (impl : DependencyMapImpl κ ν)

def query (name : κ) : Option ν := impl.map.lookup name

/-- The value is emplaced, or assigned to the element that is there. -/
def set (name : κ) (value : ν) : DependencyMapImpl κ ν := ⟨impl.map.insert name value⟩

end DependencyMapImpl

/-! ## Handles -/

/-- The handles of a program by number, with what their `impl_` leads to; `none` is a null
pointer. -/
structure Handles (α : Type*) where
  maps : List (Option α) := []
  mutables : List (Option α) := []

/-- The calls that only hand pointers on. -/
inductive HandleCall where
  | copyMap (i : ℕ)
  | moveMap (i : ℕ)
  /-- `maps[i] = maps[k]` -/
  | assign (i k : ℕ)
  /-- `maps[i] = std::move(maps[k])` -/
  | moveAssign (i k : ℕ)
  | fix (j : ℕ)

namespace Handles

variable {α β : Type*} (h : Handles α)

def call : HandleCall → Option (Handles α)
  | .copyMap i => h.maps[i]?.map fun p ↦ { h with maps := h.maps ++ [p] }
  | .moveMap i => h.maps[i]?.map fun p ↦ { h with maps := h.maps.set i none ++ [p] }
  | .assign i k =>
    h.maps[i]?.bind fun _ ↦ h.maps[k]?.map fun p ↦ { h with maps := h.maps.set i p }
  | .moveAssign i k =>
    -- a self-move leaves the pointer as it is
    h.maps[i]?.bind fun _ ↦ h.maps[k]?.map fun p ↦ { h with maps := (h.maps.set k none).set i p }
  | .fix j =>
    h.mutables[j]?.map fun p ↦ { maps := h.maps ++ [p], mutables := h.mutables.set j none }

def addMap (p : Option α) : Handles α := { h with maps := h.maps ++ [p] }

def addMutable (p : Option α) : Handles α := { h with mutables := h.mutables ++ [p] }

def map (f : α → β) : Handles β where
  maps := h.maps.map (Option.map f)
  mutables := h.mutables.map (Option.map f)

variable {h}

/-- Handing pointers on does not depend on what they lead to. -/
theorem call_map (f : α → β) (c : HandleCall) :
    (h.map f).call c = (h.call c).map fun h ↦ h.map f := by
  rcases c with i | i | ⟨i, k⟩ | ⟨i, k⟩ | j
  · rcases hi : h.maps[i]? with _ | p <;> simp [call, map, hi]
  · rcases hi : h.maps[i]? with _ | p <;> simp [call, map, hi, List.map_set]
  · rcases hi : h.maps[i]? with _ | p <;> rcases hk : h.maps[k]? with _ | p' <;>
      simp [call, map, hi, hk, List.map_set]
  · rcases hi : h.maps[i]? with _ | p <;> rcases hk : h.maps[k]? with _ | p' <;>
      simp [call, map, hi, hk, List.map_set]
  · rcases hj : h.mutables[j]? with _ | p <;> simp [call, map, hj, List.map_set]

theorem map_maps_congr {f g : α → β} (hfg : ∀ a, some a ∈ h.maps → f a = g a) :
    (h.map f).maps = (h.map g).maps := by
  refine List.map_congr_left fun p hp ↦ ?_
  rcases p with _ | a
  · rfl
  · exact congrArg some (hfg a hp)

theorem map_mutables_congr {f g : α → β} (hfg : ∀ a, some a ∈ h.mutables → f a = g a) :
    (h.map f).mutables = (h.map g).mutables := by
  refine List.map_congr_left fun p hp ↦ ?_
  rcases p with _ | a
  · rfl
  · exact congrArg some (hfg a hp)

theorem addMap_map (f : α → β) (p : Option α) :
    (h.addMap p).map f = (h.map f).addMap (p.map f) := by
  simp [addMap, map]

theorem addMutable_map (f : α → β) (p : Option α) :
    (h.addMutable p).map f = (h.map f).addMutable (p.map f) := by
  simp [addMutable, map]

end Handles

/-! ## Programs -/

inductive Command (κ ν : Type*) where
  /-- `dependency_map()` -/
  | newMap
  /-- `mutable_dependency_map()` -/
  | newMutable
  | handOn (c : HandleCall)
  | clone (i : ℕ)
  | set (j : ℕ) (name : κ) (value : ν)
  | query (i : ℕ) (name : κ)

/-- The implementations that were allocated, and the handles with their addresses. -/
structure State (κ ν : Type*) where
  impls : List (DependencyMapImpl κ ν) := []
  handles : Handles ℕ := {}

namespace State

variable {κ ν : Type*} [DecidableEq κ] (s : State κ ν)

/-- The implementation that a `dependency_map` leads to; undefined where `impl_` is null. -/
def implOf (i : ℕ) : Option (DependencyMapImpl κ ν) :=
  s.handles.maps[i]?.bind fun p ↦ p.bind fun a ↦ s.impls[a]?

/-- `impl_->query(name)` -/
def query (i : ℕ) (name : κ) : Option (Option ν) := (s.implOf i).map fun impl ↦ impl.query name

def step : Command κ ν → State κ ν → Option (State κ ν)
  | .newMap, s => some ⟨s.impls ++ [{}], s.handles.addMap (some s.impls.length)⟩
  | .newMutable, s => some ⟨s.impls ++ [{}], s.handles.addMutable (some s.impls.length)⟩
  | .handOn c, s => (s.handles.call c).map fun handles ↦ { s with handles }
  | .clone i, s =>
    (s.implOf i).map fun impl ↦
      ⟨s.impls ++ [impl], s.handles.addMutable (some s.impls.length)⟩
  | .set j name value, s =>
    s.handles.mutables[j]?.bind fun p ↦ p.bind fun a ↦ s.impls[a]?.map fun impl ↦
      { s with impls := s.impls.set a (impl.set name value) }
  | .query i name, s => (s.query i name).map fun _ ↦ s

/-- The run of a program. It is undefined if a handle is used that does not exist or if a null
pointer is dereferenced. -/
def run (program : List (Command κ ν)) : Option (State κ ν) := exec step program {}

end State

/-! ## Plain values -/

/-- Every handle holds a map of its own, or nothing. -/
abbrev Flat (κ ν : Type*) := Handles (DependencyMapImpl κ ν)

namespace Flat

variable {κ ν : Type*} [DecidableEq κ] (t : Flat κ ν)

def query (i : ℕ) (name : κ) : Option (Option ν) :=
  t.maps[i]?.bind fun m ↦ m.map fun impl ↦ impl.query name

def step : Command κ ν → Flat κ ν → Option (Flat κ ν)
  | .newMap, t => some (t.addMap (some {}))
  | .newMutable, t => some (t.addMutable (some {}))
  | .handOn c, t => t.call c
  | .clone i, t => t.maps[i]?.bind fun m ↦ m.map fun impl ↦ t.addMutable (some impl)
  | .set j name value, t =>
    t.mutables[j]?.bind fun m ↦ m.map fun impl ↦
      { t with mutables := t.mutables.set j (some (impl.set name value)) }
  | .query i name, t => (t.query i name).map fun _ ↦ t

def run (program : List (Command κ ν)) : Option (Flat κ ν) := exec step program {}

end Flat

/-! ## What is written to belongs to one handle -/

/-- Pointers lead to implementations that were allocated, and the implementation of a
`mutable_dependency_map` belongs to nobody else. -/
structure Handles.Owned (h : Handles ℕ) (allocated : ℕ) : Prop where
  maps_lt : ∀ a, some a ∈ h.maps → a < allocated
  mutables_lt : ∀ a, some a ∈ h.mutables → a < allocated
  alone : ∀ a, some a ∈ h.mutables → some a ∉ h.maps
  once : ∀ j j' a : ℕ, h.mutables[j]? = some (some a) → h.mutables[j']? = some (some a) → j = j'

namespace Handles.Owned

variable {h : Handles ℕ} {n : ℕ}

/-- Pointers of maps are handed on to maps. -/
theorem of_maps (hown : h.Owned n) {maps : List (Option ℕ)}
    (hmaps : ∀ a, some a ∈ maps → some a ∈ h.maps) : Handles.Owned { h with maps } n where
  maps_lt a ha := hown.maps_lt a (hmaps a ha)
  mutables_lt := hown.mutables_lt
  alone a ha hm := hown.alone a ha (hmaps a hm)
  once := hown.once

theorem fix (hown : h.Owned n) {j : ℕ} {p : Option ℕ} (hj : h.mutables[j]? = some p) :
    Handles.Owned { maps := h.maps ++ [p], mutables := h.mutables.set j none } n := by
  have hkept {a : ℕ} (ha : some a ∈ h.mutables.set j none) : some a ∈ h.mutables := by
    rcases List.mem_or_eq_of_mem_set ha with ha | ha
    · exact ha
    · exact absurd ha (by simp)
  refine ⟨fun a ha ↦ ?_, fun a ha ↦ hown.mutables_lt a (hkept ha), fun a ha hm ↦ ?_, ?_⟩
  · rcases List.mem_append.mp ha with ha | ha
    · exact hown.maps_lt a ha
    · rw [List.mem_singleton] at ha
      exact hown.mutables_lt a (List.mem_of_getElem? (ha ▸ hj))
  · rcases List.mem_append.mp hm with hm | hm
    · exact hown.alone a (hkept ha) hm
    · -- the pointer was taken away from the one handle that had it
      rw [List.mem_singleton] at hm
      subst hm
      obtain ⟨k, hk⟩ := List.mem_iff_getElem?.mp ha
      by_cases hjk : j = k
      · subst hjk
        rw [List.getElem?_set_self (List.getElem?_eq_some_iff.mp hj).1] at hk
        exact absurd hk (by simp)
      · rw [List.getElem?_set_ne hjk] at hk
        exact hjk (hown.once j k a hj hk)
  · intro k k' a hk hk'
    have hof {k : ℕ} (hk : (h.mutables.set j none)[k]? = some (some a)) :
        h.mutables[k]? = some (some a) := by
      rw [List.getElem?_set] at hk
      split_ifs at hk
      · exact absurd hk (by simp)
      · exact hk
    exact hown.once k k' a (hof hk) (hof hk')

theorem call (hown : h.Owned n) {c : HandleCall} {h' : Handles ℕ} (hc : h.call c = some h') :
    h'.Owned n := by
  rcases c with i | i | ⟨i, k⟩ | ⟨i, k⟩ | j
  · obtain ⟨p, hi, rfl⟩ := Option.map_eq_some_iff.mp hc
    refine hown.of_maps fun a ha ↦ ?_
    rcases List.mem_append.mp ha with ha | ha
    · exact ha
    · exact List.mem_singleton.mp ha ▸ List.mem_of_getElem? hi
  · obtain ⟨p, hi, rfl⟩ := Option.map_eq_some_iff.mp hc
    refine hown.of_maps fun a ha ↦ ?_
    rcases List.mem_append.mp ha with ha | ha
    · rcases List.mem_or_eq_of_mem_set ha with ha | ha
      · exact ha
      · exact absurd ha (by simp)
    · exact List.mem_singleton.mp ha ▸ List.mem_of_getElem? hi
  · obtain ⟨-, -, hc⟩ := Option.bind_eq_some_iff.mp hc
    obtain ⟨p, hk, rfl⟩ := Option.map_eq_some_iff.mp hc
    refine hown.of_maps fun a ha ↦ ?_
    rcases List.mem_or_eq_of_mem_set ha with ha | rfl
    · exact ha
    · exact List.mem_of_getElem? hk
  · obtain ⟨-, -, hc⟩ := Option.bind_eq_some_iff.mp hc
    obtain ⟨p, hk, rfl⟩ := Option.map_eq_some_iff.mp hc
    refine hown.of_maps fun a ha ↦ ?_
    rcases List.mem_or_eq_of_mem_set ha with ha | rfl
    · rcases List.mem_or_eq_of_mem_set ha with ha | ha
      · exact ha
      · exact absurd ha (by simp)
    · exact List.mem_of_getElem? hk
  · obtain ⟨p, hj, rfl⟩ := Option.map_eq_some_iff.mp hc
    exact hown.fix hj

/-- A new implementation belongs to the new handle. -/
theorem addMap (hown : h.Owned n) : (h.addMap (some n)).Owned (n + 1) where
  maps_lt a ha := by
    rcases List.mem_append.mp ha with ha | ha
    · exact Nat.lt_succ_of_lt (hown.maps_lt a ha)
    · rw [List.mem_singleton, Option.some_inj] at ha
      exact ha ▸ Nat.lt_succ_self n
  mutables_lt a ha := Nat.lt_succ_of_lt (hown.mutables_lt a ha)
  alone a ha hm := by
    rcases List.mem_append.mp hm with hm | hm
    · exact hown.alone a ha hm
    · rw [List.mem_singleton, Option.some_inj] at hm
      exact Nat.lt_irrefl n (hm ▸ hown.mutables_lt a ha)
  once := hown.once

theorem addMutable (hown : h.Owned n) : (h.addMutable (some n)).Owned (n + 1) where
  maps_lt a ha := Nat.lt_succ_of_lt (hown.maps_lt a ha)
  mutables_lt a ha := by
    rcases List.mem_append.mp ha with ha | ha
    · exact Nat.lt_succ_of_lt (hown.mutables_lt a ha)
    · rw [List.mem_singleton, Option.some_inj] at ha
      exact ha ▸ Nat.lt_succ_self n
  alone a ha hm := by
    rcases List.mem_append.mp ha with ha | ha
    · exact hown.alone a ha hm
    · rw [List.mem_singleton, Option.some_inj] at ha
      exact Nat.lt_irrefl n (ha ▸ hown.maps_lt a hm)
  once j j' a hj hj' := by
    have hof {k : ℕ} (hk : (h.mutables ++ [some n])[k]? = some (some a)) :
        h.mutables[k]? = some (some a) ∨ k = h.mutables.length ∧ a = n := by
      rcases Nat.lt_or_ge k h.mutables.length with hlt | hge
      · exact .inl (by rwa [List.getElem?_append_left hlt] at hk)
      · rw [List.getElem?_append_right hge, List.getElem?_singleton] at hk
        split_ifs at hk with hzero
        exact .inr ⟨by omega, (by simpa using hk.symm)⟩
    have hnew {k : ℕ} (hk : h.mutables[k]? = some (some n)) : False :=
      Nat.lt_irrefl n (hown.mutables_lt n (List.mem_of_getElem? hk))
    rcases hof hj with hold | ⟨hlast, rfl⟩
    · rcases hof hj' with hold' | ⟨-, rfl⟩
      · exact hown.once j j' a hold hold'
      · exact (hnew hold).elim
    · rcases hof hj' with hold' | ⟨hlast', -⟩
      · exact (hnew hold').elim
      · rw [hlast, hlast']

end Handles.Owned

/-! ## The two levels agree -/

namespace State

variable {κ ν : Type*} [DecidableEq κ] {s t : State κ ν}

/-- What a state holds, handle by handle. -/
def flat (s : State κ ν) : Flat κ ν := s.handles.map fun a ↦ s.impls.getD a {}

omit [DecidableEq κ] in
theorem implOf_eq (hown : s.handles.Owned s.impls.length) (i : ℕ) :
    s.implOf i = s.flat.maps[i]?.join := by
  rcases hi : s.handles.maps[i]? with _ | p
  · simp [implOf, flat, Handles.map, hi]
  · rcases p with _ | a
    · simp [implOf, flat, Handles.map, hi]
    · have ha : a < s.impls.length := hown.maps_lt a (List.mem_of_getElem? hi)
      simp [implOf, flat, Handles.map, hi, ha]

theorem query_eq (hown : s.handles.Owned s.impls.length) (i : ℕ) (name : κ) :
    s.query i name = s.flat.query i name := by
  rw [query, implOf_eq hown, Flat.query]
  rcases s.flat.maps[i]? with _ | m <;> rfl

omit [DecidableEq κ] in
/-- A new implementation changes nothing for the handles that are there. -/
theorem map_push (hown : s.handles.Owned s.impls.length) (impl : DependencyMapImpl κ ν) :
    (s.handles.map fun a ↦ (s.impls ++ [impl]).getD a {}) = s.flat := by
  have hkept {a : ℕ} (ha : a < s.impls.length) :
      (s.impls ++ [impl]).getD a {} = s.impls.getD a {} := by
    simp [List.getElem?_append_left ha]
  refine congrArg₂ Handles.mk ?_ ?_
  · exact Handles.map_maps_congr fun a ha ↦ hkept (hown.maps_lt a ha)
  · exact Handles.map_mutables_congr fun a ha ↦ hkept (hown.mutables_lt a ha)

omit [DecidableEq κ] in
/-- A write is seen through the handle that it was made through and through no other. -/
theorem flat_set (hown : s.handles.Owned s.impls.length) {j a : ℕ}
    (hj : s.handles.mutables[j]? = some (some a)) (impl : DependencyMapImpl κ ν) :
    ({ s with impls := s.impls.set a impl } : State κ ν).flat =
      { s.flat with mutables := s.flat.mutables.set j (some impl) } := by
  have halloc : a < s.impls.length := hown.mutables_lt a (List.mem_of_getElem? hj)
  have hkept {b : ℕ} (hab : a ≠ b) : (s.impls.set a impl).getD b {} = s.impls.getD b {} := by
    simp [List.getElem?_set_ne hab]
  refine congrArg₂ Handles.mk ?_ ?_
  · refine Handles.map_maps_congr fun b hb ↦ hkept ?_
    rintro rfl
    exact hown.alone a (List.mem_of_getElem? hj) hb
  · apply List.ext_getElem?
    intro k
    by_cases hjk : j = k
    · subst hjk
      obtain ⟨hlen, hval⟩ := List.getElem?_eq_some_iff.mp hj
      simp [flat, Handles.map, hlen, hval, halloc]
    · rw [List.getElem?_set_ne hjk]
      rcases hk : s.handles.mutables[k]? with _ | p
      · simp [flat, Handles.map, hk]
      · rcases p with _ | b
        · simp [flat, Handles.map, hk]
        · have hab : a ≠ b := by
            rintro rfl
            exact hjk (hown.once j k a hj hk)
          simp [flat, Handles.map, hk, List.getElem?_set_ne hab]

/-- A state and the plain values that it stands for. -/
structure Shows (s : State κ ν) (t : Flat κ ν) : Prop where
  owned : s.handles.Owned s.impls.length
  flat_eq : s.flat = t

theorem step_shows (c : Command κ ν) {t : Flat κ ν} (h : s.Shows t) :
    Option.Rel Shows (step c s) (Flat.step c t) := by
  obtain ⟨hown, rfl⟩ := h
  rcases c with _ | _ | c | i | ⟨j, name, value⟩ | ⟨i, name⟩
  · refine .some ⟨?_, ?_⟩
    · simpa using hown.addMap
    · rw [flat, Handles.addMap_map, map_push hown]
      simp
  · refine .some ⟨?_, ?_⟩
    · simpa using hown.addMutable
    · rw [flat, Handles.addMutable_map, map_push hown]
      simp
  · have hcall : Flat.step (.handOn c) s.flat =
        (s.handles.call c).map fun h ↦ h.map fun a ↦ s.impls.getD a {} :=
      Handles.call_map _ c
    rw [hcall]
    simp only [step]
    rcases hc : s.handles.call c with _ | h'
    · exact .none
    · exact .some ⟨hown.call hc, rfl⟩
  · simp only [step, Flat.step, implOf_eq hown]
    rcases hi : s.flat.maps[i]? with _ | m
    · exact .none
    · rcases m with _ | impl
      · exact .none
      · refine .some ⟨?_, ?_⟩
        · simpa using hown.addMutable
        · rw [flat, Handles.addMutable_map, map_push hown]
          simp
  · simp only [step, Flat.step]
    rcases hj : s.handles.mutables[j]? with _ | p
    · simp [flat, Handles.map, hj]
    · rcases p with _ | a
      · simp [flat, Handles.map, hj]
      · have halloc : a < s.impls.length := hown.mutables_lt a (List.mem_of_getElem? hj)
        have hflat : s.flat.mutables[j]? = some (some s.impls[a]) := by
          simp [flat, Handles.map, hj, halloc]
        rw [hflat]
        simp only [Option.bind_some, List.getElem?_eq_getElem halloc, Option.map_some]
        exact .some ⟨by simpa using hown, flat_set hown hj _⟩
  · simp only [step, Flat.step, query_eq hown]
    rcases s.flat.query i name with _ | answer
    · exact .none
    · exact .some ⟨hown, rfl⟩

end State

/-- Sharing is never seen: a program is defined on implementations with addresses exactly if it is
on plain values, and every handle then answers every query with what its own value holds. -/
theorem run_flat {κ ν : Type*} [DecidableEq κ] (program : List (Command κ ν)) :
    Option.Rel (fun s t ↦ ∀ i name, s.query i name = t.query i name)
      (State.run program) (Flat.run program) := by
  have hinit : State.Shows ({} : State κ ν) {} :=
    ⟨⟨by simp, by simp, by simp, by simp⟩, rfl⟩
  have hrel := exec_rel (fun c s t h ↦ State.step_shows c h) program hinit
  rw [State.run, Flat.run]
  generalize exec State.step program {} = s at hrel ⊢
  generalize exec Flat.step program {} = t at hrel ⊢
  rcases hrel with h | _
  · refine .some fun i name ↦ ?_
    rw [State.query_eq h.owned, h.flat_eq]
  · exact .none

end Dependency

end BoostConnector
