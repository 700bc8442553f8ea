import BoostConnector.Json.Bytes

/-!
# JSON values

The eight kinds of `boost::json::value`. Numbers keep the kind the parser gave them: a signed or
unsigned 64-bit integer, or a double, taken as its 64-bit pattern. An object is the sequence of its
members in insertion order; Boost.JSON keeps member names unique, which is `WellFormed` here.

The accessors follow Boost.JSON: `asObject` and `asString` stand for `as_object` and `as_string`,
`ifContains` for `if_contains` and (where the caller lets the exception out) `at`. They are partial
where the library throws.
-/

namespace BoostConnector

namespace Json

inductive Value where
  | null
  | bool (b : Bool)
  | int64 (i : BitVec 64)
  | uint64 (u : BitVec 64)
  | double (d : BitVec 64)
  | string (s : Bytes)
  | array (a : List Value)
  | object (o : List (Bytes × Value))
  deriving Repr, Inhabited

/-- The members of an object, in order. -/
abbrev Members := List (Bytes × Value)

/-- Induction over values, with the hypothesis for every element of an array and for the value of
every member of an object. -/
@[elab_as_elim]
theorem Value.induction {P : Value → Prop} (null : P .null) (bool : ∀ b, P (.bool b))
    (int64 : ∀ i, P (.int64 i)) (uint64 : ∀ u, P (.uint64 u)) (double : ∀ d, P (.double d))
    (string : ∀ s, P (.string s)) (array : ∀ a : List Value, (∀ v ∈ a, P v) → P (.array a))
    (object : ∀ o : Members, (∀ m ∈ o, P m.2) → P (.object o)) (v : Value) : P v :=
  @Value.rec P (fun a ↦ ∀ v ∈ a, P v) (fun o ↦ ∀ m ∈ o, P m.2) (fun m ↦ P m.2) null bool int64
    uint64 double string array object (List.forall_mem_nil _)
    (fun _ _ h hs ↦ List.forall_mem_cons.mpr ⟨h, hs⟩) (List.forall_mem_nil _)
    (fun _ _ h hs ↦ List.forall_mem_cons.mpr ⟨h, hs⟩) (fun _ _ h ↦ h) v

/-! ## Access -/

namespace Value

def asObject : Value → Option Members
  | object o => some o
  | _ => none

def asString : Value → Option Bytes
  | string s => some s
  | _ => none

end Value

def ifContains (o : Members) (name : Bytes) : Option Value := List.lookup name o

/-- `o.at(name).as_string()`, which throws on a missing member and on one of another kind. -/
def stringAt (o : Members) (name : Bytes) : Option Bytes :=
  (ifContains o name).bind Value.asString

/-! ## Well-formedness -/

mutual

/-- Member names are unique in every object of the value. -/
def Value.WellFormed : Value → Prop
  | .array a => WellFormedElements a
  | .object o => (o.map Prod.fst).Nodup ∧ WellFormedMembers o
  | _ => True

def WellFormedElements : List Value → Prop
  | [] => True
  | v :: vs => v.WellFormed ∧ WellFormedElements vs

def WellFormedMembers : Members → Prop
  | [] => True
  | (_, v) :: o => v.WellFormed ∧ WellFormedMembers o

end

theorem wellFormedElements_iff {a : List Value} :
    WellFormedElements a ↔ ∀ v ∈ a, v.WellFormed := by
  induction a with
  | nil => simp [WellFormedElements]
  | cons v a ih => rw [WellFormedElements, ih, List.forall_mem_cons]

theorem wellFormedMembers_iff {o : Members} :
    WellFormedMembers o ↔ ∀ m ∈ o, m.2.WellFormed := by
  induction o with
  | nil => simp [WellFormedMembers]
  | cons m o ih => rw [WellFormedMembers, ih, List.forall_mem_cons]

@[simp] theorem wellFormed_array {a : List Value} :
    (Value.array a).WellFormed ↔ ∀ v ∈ a, v.WellFormed := by
  rw [Value.WellFormed, wellFormedElements_iff]

@[simp] theorem wellFormed_object {o : Members} :
    (Value.object o).WellFormed ↔ (o.map Prod.fst).Nodup ∧ ∀ m ∈ o, m.2.WellFormed := by
  rw [Value.WellFormed, wellFormedMembers_iff]

theorem wellFormed_member {name : Bytes} {v : Value} (h : v.WellFormed) :
    (Value.object [(name, v)]).WellFormed := by
  simpa using h

/-! ## Lookup -/

theorem mem_of_ifContains {o : Members} {name : Bytes} {v : Value}
    (h : ifContains o name = some v) : (name, v) ∈ o := by
  induction o with
  | nil => simp [ifContains] at h
  | cons m o ih =>
    rw [ifContains, List.lookup_cons] at h
    split at h
    · next heq =>
      rw [beq_iff_eq] at heq
      rw [Option.some_inj] at h
      subst heq h
      exact List.mem_cons_self
    · exact List.mem_cons_of_mem _ (ih h)

/-- Where names are unique, every member is found. -/
theorem ifContains_of_mem {o : Members} {m : Bytes × Value} (ho : (o.map Prod.fst).Nodup)
    (hm : m ∈ o) : ifContains o m.1 = some m.2 := by
  induction o with
  | nil => exact absurd hm List.not_mem_nil
  | cons n o ih =>
    obtain ⟨hn, ho⟩ := List.nodup_cons.mp ho
    rw [ifContains, List.lookup_cons]
    rcases List.mem_cons.mp hm with rfl | hm
    · rw [beq_self_eq_true]
    · have hne : m.1 ≠ n.1 := fun heq ↦ hn (heq ▸ List.mem_map_of_mem hm)
      rw [beq_false_of_ne hne]
      exact ih ho hm

/-- Where names are unique, the order of the members does not matter. -/
theorem ifContains_eq_of_perm {o p : Members} (h : o.Perm p) (ho : (o.map Prod.fst).Nodup)
    (name : Bytes) : ifContains o name = ifContains p name := by
  have hp : (p.map Prod.fst).Nodup := (h.map Prod.fst).nodup_iff.mp ho
  refine Option.ext fun v ↦ ⟨fun hv ↦ ?_, fun hv ↦ ?_⟩
  · exact ifContains_of_mem hp (h.mem_iff.mp (mem_of_ifContains hv))
  · exact ifContains_of_mem ho (h.mem_iff.mpr (mem_of_ifContains hv))

end Json

end BoostConnector
