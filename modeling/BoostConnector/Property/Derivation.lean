import BoostConnector.Property.PropertyMap

/-!
# Derivations of property maps

What a property map should hold is told by its derivation alone: the sets from the first mutable map
through each fork to the map. `Derivations` is a program's flat account of its handles, in which
every handle has a derivation of its own and a fork copies it.

The layers agree with this account if no mutable map is copied and none is used after it has been
moved from or fixed (`query_eq_latest`). Then the layer of a mutable map is its own: no other handle
has it and no layer is a child of it, so that a `set` is seen through that handle only.
-/

namespace BoostConnector

namespace Property

open Collections Transition

/-- The sets along a derivation, the most recent first. -/
abbrev Derivation (κ ν : Type*) := List (κ × ν)

/-- The value of the most recent set of the key. -/
def Derivation.latest {κ ν : Type*} [DecidableEq κ] : Derivation κ ν → κ → Option ν
  | [], _ => none
  | (key', value) :: d, key => if key = key' then some value else Derivation.latest d key

/-- The derivation of each handle. A default-constructed map has none, and neither has a handle that
was moved from. -/
structure Derivations (κ ν : Type*) where
  maps : List (Option (Derivation κ ν)) := []
  mutables : List (Option (Derivation κ ν)) := []

namespace Derivations

variable {κ ν : Type*}

def step : Command κ ν → Derivations κ ν → Option (Derivations κ ν)
  | .newMap, f => some { f with maps := f.maps ++ [none] }
  | .newMutable, f => some { f with mutables := f.mutables ++ [some []] }
  | .copyMap i, f => f.maps[i]?.map fun d ↦ { f with maps := f.maps ++ [d] }
  | .moveMap i, f => f.maps[i]?.map fun d ↦ { f with maps := (f.maps ++ [d]).set i none }
  | .copyMutable j, f => f.mutables[j]?.map fun d ↦ { f with mutables := f.mutables ++ [d] }
  | .moveMutable j, f =>
    f.mutables[j]?.map fun d ↦ { f with mutables := (f.mutables ++ [d]).set j none }
  | .mutate i, f =>
    f.maps[i]?.map fun d ↦ { f with mutables := f.mutables ++ [some (d.getD [])] }
  | .set j key value, f => f.mutables[j]?.bind fun d ↦ d.map fun d ↦
    { f with mutables := f.mutables.set j (some ((key, value) :: d)) }
  | .fix j, f => f.mutables[j]?.map fun d ↦
    { maps := f.maps ++ [d], mutables := f.mutables.set j none }
  | .query i _, f => f.maps[i]?.bind fun d ↦ d.map fun _ ↦ f

def run (program : List (Command κ ν)) : Option (Derivations κ ν) := exec step program {}

end Derivations

namespace State

variable {κ ν : Type*} {s t : State κ ν} {f : Derivations κ ν}

/-- A mutable map is not copied, and not used once it has been moved from or fixed. -/
def Linear : Command κ ν → State κ ν → Prop
  | .copyMutable _, _ => False
  | .moveMutable j, s | .fix j, s => ∀ m ∈ s.mutables[j]?, m.impl ≠ none
  | _, _ => True

instance : ∀ (command : Command κ ν) (s : State κ ν), Decidable (Linear command s)
  | .copyMutable _, _ => inferInstanceAs (Decidable False)
  | .moveMutable _, _ | .fix _, _ => by
    unfold Linear
    infer_instance
  | .newMap, _ | .newMutable, _ | .copyMap _, _ | .moveMap _, _ | .mutate _, _ | .set _ _ _, _
  | .query _ _, _ => inferInstanceAs (Decidable True)

/-! ## Layers of their own -/

/-- The mutable map may still write to the layer. -/
def Owns (s : State κ ν) (j a : ℕ) : Prop := s.mutables[j]? = some { impl := some a }

/-- A layer that may still be written to belongs to one mutable map and to nothing else. -/
structure Exclusive (s : State κ ν) : Prop where
  childless : ∀ {j a}, s.Owns j a → ∀ i, s.layers.parent? i ≠ some a
  unfixed : ∀ {j a}, s.Owns j a → ∀ m ∈ s.maps, m.impl ≠ some a
  unshared : ∀ {j k a}, s.Owns j a → s.Owns k a → j = k

theorem Owns.lt {j a : ℕ} (h : s.Owns j a) : a < s.layers.size :=
  s.mutables_lt _ (List.mem_of_getElem? h) a rfl

theorem owns_of_clearMutable {j k a : ℕ} (h : (s.clearMutable j).Owns k a) :
    k ≠ j ∧ s.Owns k a := by
  rcases getElem?_set_eq_some h with h | ⟨-, h⟩
  · exact h
  · exact absurd h (by simp)

theorem Exclusive.addMap (hs : s.Exclusive) {impl : Option ℕ}
    (himpl : ∀ a ∈ impl, a < s.layers.size) (hnew : ∀ j a, s.Owns j a → impl ≠ some a) :
    (s.addMap impl himpl).Exclusive where
  childless := hs.childless
  unfixed hown := List.forall_mem_append.mpr
    ⟨hs.unfixed hown, List.forall_mem_singleton.mpr (hnew _ _ hown)⟩
  unshared := hs.unshared

theorem Exclusive.clearMap (hs : s.Exclusive) (i : ℕ) : (s.clearMap i).Exclusive where
  childless := hs.childless
  unfixed hown m hm := by
    rcases List.mem_or_eq_of_mem_set hm with hm | rfl
    · exact hs.unfixed hown m hm
    · simp
  unshared := hs.unshared

theorem Exclusive.addLayer (hs : s.Exclusive) {parent : Option ℕ}
    (hparent : ∀ p ∈ parent, p < s.layers.size) (hnew : ∀ j a, s.Owns j a → parent ≠ some a) :
    (s.addLayer parent hparent).Exclusive := by
  have hcases {j a : ℕ} (hown : (s.addLayer parent hparent).Owns j a) :
      s.Owns j a ∨ j = s.mutables.length ∧ a = s.layers.size := by
    rcases getElem?_concat_eq_some hown with hown | ⟨rfl, heq⟩
    · exact .inl hown
    · exact .inr ⟨rfl, by simpa using heq⟩
  constructor
  · intro j a hown i hi
    rcases hcases hown with hold | ⟨-, rfl⟩
    · rcases LayerHeap.parent?_push_eq_some hparent hi with hi | rfl
      · exact hs.childless hold i hi
      · exact hnew j a hold rfl
    · rcases LayerHeap.parent?_push_eq_some hparent hi with hi | rfl
      · exact (s.layers.parent?_lt_size hi).false
      · exact (hparent _ rfl).false
  · intro j a hown m hm himpl
    rcases hcases hown with hold | ⟨-, rfl⟩
    · exact hs.unfixed hold m hm himpl
    · exact (s.maps_lt m hm _ himpl).false
  · intro j k a hj hk
    rcases hcases hj with hj | ⟨rfl, rfl⟩
    · rcases hcases hk with hk | ⟨-, rfl⟩
      · exact hs.unshared hj hk
      · exact hj.lt.false.elim
    · rcases hcases hk with hk | ⟨rfl, -⟩
      · exact hk.lt.false.elim
      · rfl

/-- A move hands the layer over to a new mutable map. -/
theorem Exclusive.moveMutable (hs : s.Exclusive) {j : ℕ} {m : MutablePropertyMap}
    (hj : s.mutables[j]? = some m) (himpl : ∀ a ∈ m.impl, a < s.layers.size) :
    ((s.addMutable m.impl himpl).clearMutable j).Exclusive := by
  have hcases {k a : ℕ} (hown : ((s.addMutable m.impl himpl).clearMutable j).Owns k a) :
      (k ≠ j ∧ s.Owns k a) ∨ k = s.mutables.length ∧ s.Owns j a := by
    obtain ⟨hne, hown⟩ := owns_of_clearMutable hown
    rcases getElem?_concat_eq_some hown with hown | ⟨rfl, heq⟩
    · exact .inl ⟨hne, hown⟩
    · refine .inr ⟨rfl, hj.trans ?_⟩
      rw [heq]
  have howns {k a : ℕ} (hown : ((s.addMutable m.impl himpl).clearMutable j).Owns k a) :
      ∃ k', s.Owns k' a := (hcases hown).elim (fun h ↦ ⟨k, h.2⟩) fun h ↦ ⟨j, h.2⟩
  constructor
  · intro k a hown
    obtain ⟨k', hold⟩ := howns hown
    exact hs.childless hold
  · intro k a hown
    obtain ⟨k', hold⟩ := howns hown
    exact hs.unfixed hold
  · intro k l a hk hl
    rcases hcases hk with ⟨hkj, hk'⟩ | ⟨rfl, hk'⟩
    · rcases hcases hl with ⟨-, hl'⟩ | ⟨-, hl'⟩
      · exact hs.unshared hk' hl'
      · exact absurd (hs.unshared hk' hl') hkj
    · rcases hcases hl with ⟨hlj, hl'⟩ | ⟨rfl, -⟩
      · exact absurd (hs.unshared hl' hk') hlj
      · rfl

/-- `fix` hands the layer over to a new map. -/
theorem Exclusive.fix (hs : s.Exclusive) {j : ℕ} {m : MutablePropertyMap}
    (hj : s.mutables[j]? = some m) (himpl : ∀ a ∈ m.impl, a < s.layers.size) :
    ((s.addMap m.impl himpl).clearMutable j).Exclusive where
  childless hown := hs.childless (owns_of_clearMutable hown).2
  unfixed hown := by
    obtain ⟨hne, hold⟩ := owns_of_clearMutable hown
    refine List.forall_mem_append.mpr ⟨hs.unfixed hold, List.forall_mem_singleton.mpr fun heq ↦ ?_⟩
    exact hne (hs.unshared hold (hj.trans (congrArg some (by rw [← heq]))))
  unshared hk hl := hs.unshared (owns_of_clearMutable hk).2 (owns_of_clearMutable hl).2

theorem exclusive_start : ({} : State κ ν).Exclusive where
  childless hown := absurd hown (by simp [Owns])
  unfixed hown := absurd hown (by simp [Owns])
  unshared hown := absurd hown (by simp [Owns])

theorem Exclusive.assign [DecidableEq κ] (hs : s.Exclusive) (a : ℕ) (key : κ) (value : ν) :
    (s.assign a key value).Exclusive where
  childless hown i := by
    rw [State.assign, LayerHeap.parent?_set]
    exact hs.childless hown i
  unfixed hown := hs.unfixed hown
  unshared hj hk := hs.unshared hj hk

theorem Exclusive.step [DecidableEq κ] {command : Command κ ν} (hs : s.Exclusive)
    (hC : Linear command s) (hstep : step command s = some t) : t.Exclusive := by
  cases call_of_step hstep with
  | newMap => exact hs.addMap (by simp) fun _ _ _ ↦ by simp
  | newMutable => exact hs.addLayer (by simp) fun _ _ _ ↦ by simp
  | copyMap hi himpl =>
    exact hs.addMap himpl fun _ _ hown ↦ hs.unfixed hown _ (List.mem_of_getElem? hi)
  | moveMap hi himpl =>
    have hadd := hs.addMap himpl fun _ _ hown ↦ hs.unfixed hown _ (List.mem_of_getElem? hi)
    exact hadd.clearMap _
  | copyMutable => exact hC.elim
  | moveMutable hj himpl => exact hs.moveMutable hj himpl
  | mutate hi himpl =>
    exact hs.addLayer himpl fun _ _ hown ↦ hs.unfixed hown _ (List.mem_of_getElem? hi)
  | set => exact hs.assign _ _ _
  | fix hj himpl => exact hs.fix hj himpl
  | query => exact hs

/-! ## Agreement with the derivations -/

/-- The layer answers with the values of the derivation; a handle without a layer has none. -/
def Answers [DecidableEq κ] (layers : LayerHeap κ ν) (impl : Option ℕ)
    (d : Option (Derivation κ ν)) : Prop :=
  Option.Rel (fun a d ↦ ∀ key, layers.query a key = Derivation.latest d key) impl d

variable [DecidableEq κ]

structure Matches (s : State κ ν) (f : Derivations κ ν) : Prop where
  maps : List.Forall₂ (fun m d ↦ Answers s.layers m.impl d) s.maps f.maps
  mutables : List.Forall₂ (fun m d ↦ Answers s.layers m.impl d) s.mutables f.mutables

theorem Answers.congr {layers layers' : LayerHeap κ ν} {impl : Option ℕ}
    {d : Option (Derivation κ ν)} (h : Answers layers impl d)
    (hquery : ∀ a ∈ impl, ∀ key, layers'.query a key = layers.query a key) :
    Answers layers' impl d := by
  cases h with
  | none => exact .none
  | some h => exact .some fun key ↦ (hquery _ rfl key).trans (h key)

theorem matches_start : Matches ({} : State κ ν) {} := ⟨.nil, .nil⟩

theorem Matches.addMap (h : s.Matches f) {impl : Option ℕ}
    (himpl : ∀ a ∈ impl, a < s.layers.size) {d : Option (Derivation κ ν)}
    (hd : Answers s.layers impl d) :
    (s.addMap impl himpl).Matches { f with maps := f.maps ++ [d] } where
  maps := forall₂_concat h.maps hd
  mutables := h.mutables

theorem Matches.clearMap (h : s.Matches f) (i : ℕ) :
    (s.clearMap i).Matches { f with maps := f.maps.set i none } where
  maps := forall₂_set h.maps i .none
  mutables := h.mutables

theorem Matches.addMutable (h : s.Matches f) {impl : Option ℕ}
    (himpl : ∀ a ∈ impl, a < s.layers.size) {d : Option (Derivation κ ν)}
    (hd : Answers s.layers impl d) :
    (s.addMutable impl himpl).Matches { f with mutables := f.mutables ++ [d] } where
  maps := h.maps
  mutables := forall₂_concat h.mutables hd

theorem Matches.clearMutable (h : s.Matches f) (j : ℕ) :
    (s.clearMutable j).Matches { f with mutables := f.mutables.set j none } where
  maps := h.maps
  mutables := forall₂_set h.mutables j .none

/-- A new layer starts with the derivation of its parent. -/
theorem Matches.addLayer (h : s.Matches f) {parent : Option ℕ}
    (hparent : ∀ p ∈ parent, p < s.layers.size) {d : Option (Derivation κ ν)}
    (hd : Answers s.layers parent d) :
    (s.addLayer parent hparent).Matches
      { f with mutables := f.mutables ++ [some (d.getD [])] } where
  maps := forall₂_imp_of_getElem? h.maps fun i m _ hm hmd ↦ hmd.congr fun a ha key ↦
    LayerHeap.query_push hparent (s.maps_lt m (List.mem_of_getElem? hm) a ha) key
  mutables := by
    refine forall₂_concat ?_ (.some fun key ↦ ?_)
    · exact forall₂_imp_of_getElem? h.mutables fun j m _ hm hmd ↦ hmd.congr fun a ha key ↦
        LayerHeap.query_push hparent (s.mutables_lt m (List.mem_of_getElem? hm) a ha) key
    · refine (LayerHeap.query_push_size hparent key).trans ?_
      cases hd with
      | none => rfl
      | some hd => exact hd key

/-- A set is seen through its own handle, and through no other. -/
theorem Matches.assign (h : s.Matches f) (hs : s.Exclusive) {j a : ℕ} (hown : s.Owns j a)
    {d : Derivation κ ν} (hd : ∀ key, s.layers.query a key = Derivation.latest d key) (key : κ)
    (value : ν) :
    (s.assign a key value).Matches
      { f with mutables := f.mutables.set j (some ((key, value) :: d)) } where
  maps := forall₂_imp_of_getElem? h.maps fun i m _ hm hmd ↦ hmd.congr fun b hb key' ↦ by
    refine LayerHeap.query_set_of_childless (hs.childless hown) ?_ key'
    rintro rfl
    exact hs.unfixed hown m (List.mem_of_getElem? hm) hb
  mutables := by
    refine forall₂_set_right h.mutables hown (.some fun key' ↦ ?_) ?_
    · rw [Derivation.latest]
      split_ifs with hkey
      · rw [hkey]
        exact LayerHeap.query_set_self hown.lt
      · rw [← hd]
        exact LayerHeap.query_set_of_ne_key hkey
    · rintro k ⟨impl⟩ e hne hm hmd
      refine hmd.congr fun b hb key' ↦ ?_
      refine LayerHeap.query_set_of_childless (hs.childless hown) ?_ key'
      rintro rfl
      exact hne (hs.unshared (hm.trans (congrArg _ (congrArg _ hb))) hown)

/-- **One call** keeps the agreement. -/
theorem Matches.step (h : s.Matches f) (hs : s.Exclusive) {command : Command κ ν}
    (hC : Linear command s) (hstep : step command s = some t) :
    ∃ g, Derivations.step command f = some g ∧ t.Matches g := by
  cases call_of_step hstep with
  | newMap => exact ⟨_, rfl, h.addMap _ .none⟩
  | newMutable => exact ⟨_, rfl, h.addLayer _ .none⟩
  | copyMap hi himpl =>
    obtain ⟨d, hd, hanswers⟩ := forall₂_getElem? h.maps hi
    exact ⟨_, Option.map_eq_some_iff.mpr ⟨d, hd, rfl⟩, h.addMap himpl hanswers⟩
  | moveMap hi himpl =>
    obtain ⟨d, hd, hanswers⟩ := forall₂_getElem? h.maps hi
    exact ⟨_, Option.map_eq_some_iff.mpr ⟨d, hd, rfl⟩, (h.addMap himpl hanswers).clearMap _⟩
  | copyMutable => exact hC.elim
  | moveMutable hj himpl =>
    obtain ⟨d, hd, hanswers⟩ := forall₂_getElem? h.mutables hj
    exact ⟨_, Option.map_eq_some_iff.mpr ⟨d, hd, rfl⟩, (h.addMutable himpl hanswers).clearMutable _⟩
  | mutate hi himpl =>
    obtain ⟨d, hd, hanswers⟩ := forall₂_getElem? h.maps hi
    exact ⟨_, Option.map_eq_some_iff.mpr ⟨d, hd, rfl⟩, h.addLayer himpl hanswers⟩
  | set hj =>
    obtain ⟨d?, hd?, hanswers⟩ := forall₂_getElem? h.mutables hj
    cases hanswers with
    | @some _ d hd =>
      refine ⟨_, ?_, h.assign hs hj hd _ _⟩
      rw [Derivations.step, hd?]
      rfl
  | fix hj himpl =>
    obtain ⟨d, hd, hanswers⟩ := forall₂_getElem? h.mutables hj
    exact ⟨_, Option.map_eq_some_iff.mpr ⟨d, hd, rfl⟩, (h.addMap himpl hanswers).clearMutable _⟩
  | query hanswer =>
    obtain ⟨⟨impl, moved⟩, hi, hanswer⟩ := Option.bind_eq_some_iff.mp hanswer
    obtain ⟨a, rfl, -⟩ := Option.map_eq_some_iff.mp hanswer
    obtain ⟨d?, hd?, hanswers⟩ := forall₂_getElem? h.maps hi
    cases hanswers with
    | @some _ d hd =>
      refine ⟨f, ?_, h⟩
      rw [Derivations.step, hd?]
      rfl

/-- **Layered lookup is the flat account.** If no mutable map is copied or used once it is moved
from or fixed, then a map answers every key with the most recent set of its own derivation. -/
theorem query_eq_latest {program : List (Command κ ν)}
    (hlinear : Along step Linear program ({} : State κ ν)) (hrun : run program = some s) :
    ∃ f, Derivations.run program = some f ∧ f.maps.length = s.maps.length ∧
      ∀ i d, f.maps[i]? = some (some d) → ∀ key, s.query i key = some (Derivation.latest d key) := by
  have hlockstep : ∃ f, Derivations.run program = some f ∧ s.Exclusive ∧ s.Matches f := by
    refine exec_lockstep Eq (R := fun s f ↦ s.Exclusive ∧ s.Matches f) ?_
      (List.forall₂_refl program) ⟨exclusive_start, matches_start⟩ hlinear hrun
    rintro command _ s f t rfl ⟨hs, h⟩ hC hstep
    obtain ⟨g, hg, hmatches⟩ := h.step hs hC hstep
    exact ⟨g, hg, hs.step hC hstep, hmatches⟩
  obtain ⟨f, hf, -, hmatches⟩ := hlockstep
  refine ⟨f, hf, hmatches.maps.length_eq.symm, fun i d hd key ↦ ?_⟩
  obtain ⟨m, hm, hanswers⟩ := forall₂_getElem? (List.Forall₂.flip hmatches.maps) hd
  rw [query_of_maps hm]
  generalize m.impl = impl at hanswers
  cases hanswers with
  | some hanswers => exact congrArg some (hanswers key)

/-- One base, forked twice, and a fork of a fork. -/
def forkTree : List (Command String String) :=
  [.newMap, .newMutable, .set 0 "base" "BTC", .fix 0,
    .mutate 1, .mutate 1, .set 1 "venue" "ftx", .set 2 "base" "ETH", .fix 1, .fix 2,
    .mutate 2, .set 3 "base" "SOL", .fix 3]

theorem query_eq_latest_forkTree : ∃ s, run forkTree = some s ∧
    ∃ f, Derivations.run forkTree = some f ∧ f.maps.length = s.maps.length ∧
      ∀ i d, f.maps[i]? = some (some d) → ∀ key, s.query i key = some (Derivation.latest d key) := by
  obtain ⟨s, hs⟩ : ∃ s, run forkTree = some s := Option.isSome_iff_exists.mp (by decide +kernel)
  exact ⟨s, hs, query_eq_latest (by decide +kernel) hs⟩

end State

end Property

end BoostConnector
