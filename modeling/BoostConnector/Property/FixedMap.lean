import BoostConnector.Property.PropertyMap

/-!
# Fixed maps

A `property_map` has no `set`, yet it is not immutable: the layer that `fix` hands over stays
writable through the copies of the mutable map, and a map without a layer answers no query at all,
where `property_map_layer::query` would look whether there is a parent. Both are the program's to
avoid. If it makes no map without a layer and writes to no layer that a map reads the key from, then
every map answers every query, always in the same way (`neverChanges_of_allowed`).
-/

namespace BoostConnector

namespace Property

open Collections Transition

namespace State

variable {κ ν : Type*} {s t u : State κ ν} {command : Command κ ν}

/-- The handle exists and has not been moved from. -/
def IsLive (s : State κ ν) (i : ℕ) : Prop := ∃ m ∈ s.maps[i]?, m.movedFrom = false

instance (s : State κ ν) (i : ℕ) : Decidable (s.IsLive i) :=
  inferInstanceAs (Decidable (∃ m ∈ s.maps[i]?, m.movedFrom = false))

variable [DecidableEq κ]

/-- The maps of the program answer, a default-constructed one as an empty one, and their answers
stay the same. -/
structure NeverChanges (program : List (Command κ ν)) : Prop where
  answers : ∀ before s, before <+: program → run before = some s → ∀ i, s.IsLive i →
    ∀ key, (s.query i key).isSome = true
  empty : ∀ before s t, before ++ [.newMap] <+: program → run before = some s →
    run (before ++ [.newMap]) = some t → ∀ key, t.query s.maps.length key = some none
  same : ∀ before later s t, before <+: later → later <+: program → run before = some s →
    run later = some t → ∀ i, s.IsLive i → t.IsLive i → ∀ key, t.query i key = s.query i key

/-- No call makes a map without a layer, and `set` writes to no layer that the lookup of this key in
a map gets to. -/
def Allowed : Command κ ν → State κ ν → Prop
  | .newMap, _ => False
  | .copyMap i, s | .moveMap i, s => ∀ m ∈ s.maps[i]?, m.impl ≠ none
  | .fix j, s => ∀ m ∈ s.mutables[j]?, m.impl ≠ none
  | .set j key _, s => ∀ m ∈ s.mutables[j]?, ∀ a ∈ m.impl,
    ∀ n ∈ s.maps, n.movedFrom = false → ∀ b ∈ n.impl, a ∉ s.layers.visited b key
  | _, _ => True

instance : ∀ (command : Command κ ν) (s : State κ ν), Decidable (Allowed command s)
  | .newMap, _ => inferInstanceAs (Decidable False)
  | .copyMap _, _ | .moveMap _, _ | .fix _, _ => by
    unfold Allowed
    infer_instance
  | .set _ _ _, _ => by
    unfold Allowed
    infer_instance
  | .newMutable, _ | .copyMutable _, _ | .moveMutable _, _ | .mutate _, _ | .query _ _, _ =>
    inferInstanceAs (Decidable True)

/-! ## Every map has a layer -/

def HasLayers (s : State κ ν) : Prop := ∀ m ∈ s.maps, m.movedFrom = false → m.impl ≠ none

omit [DecidableEq κ] in
theorem HasLayers.addMap (hs : s.HasLayers) {impl : Option ℕ}
    (himpl : ∀ a ∈ impl, a < s.layers.size) (hne : impl ≠ none) : (s.addMap impl himpl).HasLayers :=
  List.forall_mem_append.mpr ⟨hs, List.forall_mem_singleton.mpr fun _ ↦ hne⟩

omit [DecidableEq κ] in
theorem HasLayers.clearMap (hs : s.HasLayers) (i : ℕ) : (s.clearMap i).HasLayers := by
  intro m hm hlive
  rcases List.mem_or_eq_of_mem_set hm with hm | rfl
  · exact hs m hm hlive
  · exact absurd hlive (by simp)

theorem HasLayers.step (hs : s.HasLayers) (hC : Allowed command s)
    (hstep : step command s = some t) : t.HasLayers := by
  cases call_of_step hstep with
  | newMap => exact hC.elim
  | newMutable => exact hs
  | copyMap hi himpl => exact hs.addMap himpl (hC _ hi)
  | moveMap hi himpl => exact (hs.addMap himpl (hC _ hi)).clearMap _
  | copyMutable => exact hs
  | moveMutable => exact hs
  | mutate => exact hs
  | set => exact hs
  | fix hj himpl => exact hs.addMap himpl (hC _ hj)
  | query => exact hs

/-! ## What a call leaves alone -/

/-- A call keeps the handles there are, or moves from them. -/
theorem maps_step (hstep : step command s = some t) {i : ℕ} {m : PropertyMap}
    (hm : s.maps[i]? = some m) :
    t.maps[i]? = some m ∨ t.maps[i]? = some { impl := none, movedFrom := true } := by
  have hlt : i < s.maps.length := (List.getElem?_eq_some_iff.mp hm).1
  have hadd (n : PropertyMap) : (s.maps ++ [n])[i]? = some m := by
    rw [List.getElem?_append_left hlt]
    exact hm
  cases call_of_step hstep with
  | newMap => exact .inl (hadd _)
  | newMutable => exact .inl hm
  | copyMap => exact .inl (hadd _)
  | @moveMap k =>
    rcases eq_or_ne k i with rfl | hne
    · exact .inr (List.getElem?_set_self (by rw [State.addMap, List.length_append]; omega))
    · exact .inl ((List.getElem?_set_ne hne).trans (hadd _))
  | copyMutable => exact .inl hm
  | moveMutable => exact .inl hm
  | mutate => exact .inl hm
  | set => exact .inl hm
  | fix => exact .inl (hadd _)
  | query => exact .inl hm

/-- **One call** leaves the answers of the layer of a map alone. -/
theorem query_step (hC : Allowed command s) (hstep : step command s = some t) {m : PropertyMap}
    (hm : m ∈ s.maps) (hlive : m.movedFrom = false) {b : ℕ} (hb : b ∈ m.impl) (key : κ) :
    t.layers.query b key = s.layers.query b key := by
  have hlt : b < s.layers.size := s.maps_lt m hm b hb
  cases call_of_step hstep with
  | newMap => rfl
  | newMutable => exact LayerHeap.query_push (by simp) hlt key
  | copyMap => rfl
  | moveMap => rfl
  | copyMutable => rfl
  | moveMutable => rfl
  | mutate _ himpl => exact LayerHeap.query_push himpl hlt key
  | @set j a key' value hj =>
    rcases eq_or_ne key key' with rfl | hne
    · exact LayerHeap.query_set_of_not_visited (hC _ hj a rfl m hm hlive b hb)
    · exact LayerHeap.query_set_of_ne_key hne
  | fix => rfl
  | query => rfl

/-! ## Programs -/

/-- The map has the layer it had in `s`, and that answers as it did, unless it is moved from. -/
def KeepsMap (s u : State κ ν) (i : ℕ) (m : PropertyMap) : Prop :=
  (u.maps[i]? = some m ∧ ∀ a ∈ m.impl, ∀ key, u.layers.query a key = s.layers.query a key) ∨
    u.maps[i]? = some { impl := none, movedFrom := true }

theorem KeepsMap.step {i : ℕ} {m : PropertyMap} (hlive : m.movedFrom = false)
    (hu : s.KeepsMap u i m) (hC : Allowed command u) (hstep : step command u = some t) :
    s.KeepsMap t i m := by
  rcases hu with ⟨hm, hsame⟩ | hmoved
  · rcases maps_step hstep hm with hm' | hmoved
    · refine .inl ⟨hm', fun a ha key ↦ ?_⟩
      exact (query_step hC hstep (List.mem_of_getElem? hm) hlive ha key).trans (hsame a ha key)
    · exact .inr hmoved
  · exact .inr ((maps_step hstep hmoved).elim id id)

theorem hasLayers_of_run {program : List (Command κ ν)}
    (hallowed : Along step Allowed program ({} : State κ ν)) (hrun : run program = some s) :
    s.HasLayers :=
  exec_invariant_of_along Allowed HasLayers (fun hs hC hstep ↦ hs.step hC hstep)
    (fun _ hm ↦ absurd hm List.not_mem_nil) hallowed hrun

/-- **Fixed maps** stay as they are in every program that makes no map without a layer and sets no
key in a layer that a map reads it from. -/
theorem neverChanges_of_allowed {program : List (Command κ ν)}
    (hallowed : Along step Allowed program ({} : State κ ν)) : NeverChanges program where
  answers := by
    rintro before s ⟨after, rfl⟩ hrun i ⟨m, hm, hlive⟩ key
    have hlayers := hasLayers_of_run (along_append hallowed hrun).1 hrun
    rw [query_of_maps hm, Option.isSome_map, Option.isSome_iff_ne_none]
    exact hlayers m (List.mem_of_getElem? hm) hlive
  empty := by
    rintro before s t ⟨after, rfl⟩ hrun - key
    rw [List.append_assoc] at hallowed
    exact (along_append hallowed hrun).2.1.elim
  same := by
    rintro before later s t ⟨middle, rfl⟩ ⟨after, rfl⟩ hbefore hlater i ⟨m, hm, hlive⟩ ht key
    rw [run, exec_append, ← run, hbefore, Option.bind_some] at hlater
    rw [List.append_assoc] at hallowed
    have hmiddle := (along_append (along_append hallowed hbefore).2 hlater).1
    have hkeeps : s.KeepsMap t i m :=
      exec_invariant_of_along Allowed (fun u ↦ s.KeepsMap u i m)
        (fun hu hC hstep ↦ hu.step hlive hC hstep) (.inl ⟨hm, fun _ _ _ ↦ rfl⟩) hmiddle hlater
    rcases hkeeps with ⟨hm', hsame⟩ | hmoved
    · rw [query_of_maps hm', query_of_maps hm]
      exact Option.map_congr fun a ha ↦ hsame a ha key
    · obtain ⟨n, hn, hlive'⟩ := ht
      obtain rfl := Option.some_inj.mp (hmoved.symm.trans hn)
      exact absurd hlive' (by simp)

/-- A map, and two more that are made from it. -/
def forks : List (Command String String) :=
  [.newMutable, .set 0 "base" "BTC", .set 0 "term" "USD", .fix 0,
    .mutate 0, .set 1 "venue" "ftx", .fix 1,
    .mutate 0, .set 2 "base" "ETH", .fix 2]

theorem neverChanges_forks : NeverChanges forks := neverChanges_of_allowed (by decide +kernel)

/-- A copy of the mutable map writes into the layer after it has been fixed. -/
def writeThroughCopy : List (Command String String) :=
  [.newMutable, .copyMutable 0, .set 0 "base" "BTC", .fix 0, .set 1 "base" "ETH"]

/-- The fixed map changes, and a default-constructed map answers nothing. -/
theorem not_neverChanges : ¬NeverChanges writeThroughCopy ∧
    ¬NeverChanges ([.newMap] : List (Command String String)) := by
  constructor
  · intro h
    have hbefore : (run (writeThroughCopy.take 4)).map
        (fun s ↦ (decide (s.IsLive 0), s.query 0 "base")) = some (true, some (some "BTC")) := by
      decide +kernel
    have hafter : (run writeThroughCopy).map
        (fun t ↦ (decide (t.IsLive 0), t.query 0 "base")) = some (true, some (some "ETH")) := by
      decide +kernel
    obtain ⟨s, hs, hsviews⟩ := Option.map_eq_some_iff.mp hbefore
    obtain ⟨t, ht, htviews⟩ := Option.map_eq_some_iff.mp hafter
    obtain ⟨hslive, hsquery⟩ := Prod.mk.inj hsviews
    obtain ⟨htlive, htquery⟩ := Prod.mk.inj htviews
    have hsame := h.same _ _ s t (List.take_prefix 4 _) List.prefix_rfl hs ht 0
      (of_decide_eq_true hslive) (of_decide_eq_true htlive) "base"
    rw [hsquery, htquery] at hsame
    exact absurd hsame (by decide)
  · intro h
    obtain ⟨s, hs⟩ : ∃ s, run ([.newMap] : List (Command String String)) = some s := ⟨_, rfl⟩
    have hview : s.IsLive 0 ∧ s.query 0 "base" = none := by
      obtain rfl := Option.some_inj.mp hs
      decide +kernel
    have hanswers := h.answers _ s List.prefix_rfl hs 0 hview.1 "base"
    rw [hview.2] at hanswers
    exact absurd hanswers (by decide)

end State

end Property

end BoostConnector
