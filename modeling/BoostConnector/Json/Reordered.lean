import BoostConnector.Collections.ListPool
import BoostConnector.Json.Digest
import BoostConnector.Json.Path

/-!
# Values that differ in the order of members

`v.Reordered w` says that the two values are the same but for the order of the members of their
objects, at any depth. The digest does not see the difference: `update_object` sorts the members at
every level (`updateSha256_eq_of_reordered`). A path leads to the same place in both, or to the same
exception, since members are looked up by name (`findPathFrom_sameOutcome`).
-/

namespace BoostConnector

namespace Json

open Collections

/-! ## Outcomes -/

/-- Two calls that both return, related results, or both throw, the same exception. -/
inductive SameOutcome {α β ε : Type*} (R : α → β → Prop) : Except ε α → Except ε β → Prop
  | ok {a : α} {b : β} (h : R a b) : SameOutcome R (.ok a) (.ok b)
  | error (e : ε) : SameOutcome R (.error e) (.error e)

/-! ## Values -/

mutual

/-- The values differ in nothing but the order of object members. -/
def Value.Reordered : Value → Value → Prop
  | .array a, .array b => ReorderedElements a b
  | .object o, .object p => ∃ q : Members, q.Perm p ∧ ReorderedMembers o q
  | v, w => v = w

def ReorderedElements : List Value → List Value → Prop
  | [], [] => True
  | v :: a, w :: b => v.Reordered w ∧ ReorderedElements a b
  | _, _ => False

/-- Members of the same names in the same order. -/
def ReorderedMembers : Members → Members → Prop
  | [], [] => True
  | (k, v) :: o, (l, w) :: q => k = l ∧ v.Reordered w ∧ ReorderedMembers o q
  | _, _ => False

end

theorem reorderedElements_iff {a b : List Value} :
    ReorderedElements a b ↔ List.Forall₂ Value.Reordered a b := by
  induction a generalizing b with
  | nil => cases b <;> simp [ReorderedElements]
  | cons v a ih => cases b <;> simp [ReorderedElements, ih]

theorem reorderedMembers_iff {o q : Members} :
    ReorderedMembers o q ↔ List.Forall₂ (fun m n ↦ m.1 = n.1 ∧ m.2.Reordered n.2) o q := by
  induction o generalizing q with
  | nil => cases q <;> simp [ReorderedMembers]
  | cons m o ih => cases q <;> simp [ReorderedMembers, ih, and_assoc]

/-- The kinds agree, and below arrays and objects the elements and members do. -/
theorem Value.Reordered.cases {v w : Value} (h : v.Reordered w) :
    (∃ a b, v = .array a ∧ w = .array b ∧ List.Forall₂ Value.Reordered a b) ∨
      (∃ o p q, v = .object o ∧ w = .object p ∧ q.Perm p ∧
        List.Forall₂ (fun m n : Bytes × Value ↦ m.1 = n.1 ∧ m.2.Reordered n.2) o q) ∨
      w = v ∧ (∀ a, v ≠ .array a) ∧ ∀ o, v ≠ .object o := by
  cases v with
  | array a =>
    cases w with
    | array b =>
      rw [Value.Reordered, reorderedElements_iff] at h
      exact .inl ⟨a, b, rfl, rfl, h⟩
    | _ => simp [Value.Reordered] at h
  | object o =>
    cases w with
    | object p =>
      rw [Value.Reordered] at h
      obtain ⟨q, hperm, h⟩ := h
      exact .inr (.inl ⟨o, p, q, rfl, rfl, hperm, reorderedMembers_iff.mp h⟩)
    | _ => simp [Value.Reordered] at h
  | _ =>
    rw [Value.Reordered] at h
    · exact .inr (.inr ⟨h.symm, by simp, by simp⟩)
    all_goals simp

/-- Members that are related in order, before the other order is taken. -/
theorem names_eq {o q : Members}
    (h : List.Forall₂ (fun m n : Bytes × Value ↦ m.1 = n.1 ∧ m.2.Reordered n.2) o q) :
    o.map Prod.fst = q.map Prod.fst :=
  map_eq_of_forall₂ h fun _ _ _ hmn ↦ hmn.1

/-! ## The digest -/

/-- **The order of members does not reach the digest.** -/
theorem updateSha256_eq_of_reordered {v w : Value} (hv : v.WellFormed) (h : v.Reordered w) :
    updateSha256 v = updateSha256 w := by
  induction v using Value.induction generalizing w with
  | array a ih =>
    rcases h.cases with ⟨_, b, heq, rfl, h⟩ | ⟨_, _, _, heq, -⟩ | ⟨-, hne, -⟩
    · obtain rfl := Value.array.inj heq
      rw [wellFormed_array] at hv
      rw [updateSha256, updateSha256, updateArray_eq_flatMap, updateArray_eq_flatMap,
        List.flatMap_def, List.flatMap_def]
      exact congrArg _ (map_eq_of_forall₂ h fun v w hmem hvw ↦ ih v hmem (hv v hmem) hvw)
    · exact absurd heq (by simp)
    · exact absurd rfl (hne a)
  | object o ih =>
    rcases h.cases with ⟨_, _, heq, -⟩ | ⟨_, p, q, heq, rfl, hperm, h⟩ | ⟨-, -, hne⟩
    · exact absurd heq (by simp)
    · obtain rfl := Value.object.inj heq
      rw [wellFormed_object] at hv
      have hpairs : updateMembers o = updateMembers q := by
        rw [updateMembers_eq_map, updateMembers_eq_map]
        refine map_eq_of_forall₂ h fun m n hmem hmn ↦ ?_
        rw [hmn.1, ih m hmem (hv.2 m hmem) hmn.2]
      rw [updateSha256, updateSha256, hpairs]
      exact updateObject_eq_of_perm hperm (names_eq h ▸ hv.1)
    · exact absurd rfl (hne o)
  | _ =>
    rcases h.cases with ⟨_, _, heq, -⟩ | ⟨_, _, _, heq, -⟩ | ⟨rfl, -⟩
    · exact absurd heq (by simp)
    · exact absurd heq (by simp)
    · rfl

/-! ## Paths -/

theorem ifContains_reordered {o q : Members} (name : Bytes)
    (h : List.Forall₂ (fun m n : Bytes × Value ↦ m.1 = n.1 ∧ m.2.Reordered n.2) o q) :
    Option.Rel Value.Reordered (ifContains o name) (ifContains q name) := by
  induction h with
  | nil => exact .none
  | @cons m n o q hmn hrest ih =>
    rw [ifContains, ifContains, List.lookup_cons, List.lookup_cons, ← hmn.1]
    split
    · exact .some hmn.2
    · exact ih

/-- One segment of a path. -/
theorem subvalue_sameOutcome {v w : Value} (hv : v.WellFormed) (h : v.Reordered w) (name : Bytes) :
    SameOutcome Value.Reordered (subvalue v name) (subvalue w name) := by
  rcases h.cases with ⟨a, b, rfl, rfl, helements⟩ | ⟨o, p, q, rfl, rfl, hperm, hmembers⟩ |
    ⟨rfl, harray, hobject⟩
  · rw [subvalue, subvalue]
    cases assertUnsignedInteger (cStr name) with
    | error e => exact .error _
    | ok i =>
      have hat := forall₂_getElem?_rel helements i
      simp only [Except.bind, atIndex]
      generalize a[i]? = found at hat
      generalize b[i]? = found' at hat
      cases hat with
      | none => exact .error _
      | some hfound => exact .ok hfound
  · have hq : (q.map Prod.fst).Nodup := names_eq hmembers ▸ (wellFormed_object.mp hv).1
    rw [subvalue, subvalue, atName, atName, ← ifContains_eq_of_perm hperm hq]
    have hfind := ifContains_reordered name hmembers
    generalize ifContains o name = found at hfind
    generalize ifContains q name = found' at hfind
    cases hfind with
    | none => exact .error _
    | some hfound => exact .ok hfound
  · cases w with
    | array a => exact absurd rfl (harray a)
    | object o => exact absurd rfl (hobject o)
    | _ => exact .error _

/-- **A path leads to the same place**, or nowhere for the same reason. -/
theorem findPathFrom_sameOutcome {v w : Value} (hv : v.WellFormed) (h : v.Reordered w)
    (original path : List Bytes) :
    SameOutcome Value.Reordered (findPathFrom original v path) (findPathFrom original w path) := by
  induction path generalizing original v w with
  | nil => exact .ok h
  | cons first rest ih =>
    rw [findPathFrom, findPathFrom]
    have hsub := subvalue_sameOutcome hv h first
    have hwf : ∀ u, subvalue v first = .ok u → u.WellFormed := fun _ ↦ wellFormed_of_subvalue hv
    generalize subvalue v first = found at hsub hwf
    generalize subvalue w first = found' at hsub
    cases hsub with
    | ok huw => exact ih (hwf _ rfl) huw _
    | error => exact .error _

end Json

end BoostConnector
