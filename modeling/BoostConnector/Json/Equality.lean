import BoostConnector.Json.Value

/-!
# Equality of JSON values

`Value.equal` is Boost.JSON's `operator==`. Signed and unsigned integers compare by their numeric
value, doubles by IEEE equality, and objects independently of the order of their members: of two
objects of the same size, every member of one is looked up in the other.

IEEE equality is coarser than equality of the 64-bit patterns in one place only, the two zeros.
`Value.zerosAgree` says that two values nowhere have a zero of one sign against a zero of the other.
-/

namespace BoostConnector

namespace Json

/-! ## Doubles -/

def isNaN (d : BitVec 64) : Bool := d &&& 0x7fffffffffffffff > 0x7ff0000000000000

def isZero (d : BitVec 64) : Bool := d &&& 0x7fffffffffffffff == 0

/-- IEEE 754 equality of two doubles, given by their patterns. -/
def ieeeEqual (d e : BitVec 64) : Bool :=
  !isNaN d && !isNaN e && (d == e || isZero d && isZero e)

/-- Two doubles are not zeros of opposite sign. -/
def zeroAgrees (d e : BitVec 64) : Bool := d == e || !(isZero d && isZero e)

theorem eq_iff_zeroAgrees {d e : BitVec 64} (h : ieeeEqual d e = true) :
    d = e ↔ zeroAgrees d e = true := by
  simp only [ieeeEqual, zeroAgrees, Bool.and_eq_true, Bool.or_eq_true, beq_iff_eq,
    Bool.not_eq_true'] at h ⊢
  constructor
  · exact Or.inl
  · rintro (heq | hzero)
    · exact heq
    · rcases h.2 with heq | ⟨hd, he⟩
      · exact heq
      · simp [hd, he] at hzero

/-! ## Integers -/

/-- A signed against an unsigned integer. -/
def int64EqualUint64 (i u : BitVec 64) : Bool := !i.slt 0 && i == u

/-! ## Values -/

mutual

def Value.equal : Value → Value → Bool
  | .null, .null => true
  | .bool b, .bool c => b == c
  | .int64 i, .int64 j => i == j
  | .int64 i, .uint64 u => int64EqualUint64 i u
  | .uint64 u, .int64 i => int64EqualUint64 i u
  | .uint64 u, .uint64 w => u == w
  | .double d, .double e => ieeeEqual d e
  | .string s, .string t => s == t
  | .array a, .array b => a.length == b.length && equalElements a b
  | .object o, .object p => o.length == p.length && equalMembers o p
  | _, _ => false

def equalElements : List Value → List Value → Bool
  | v :: a, w :: b => v.equal w && equalElements a b
  | _, _ => true

/-- Every member of the first object is found, with an equal value, in the second. -/
def equalMembers : Members → Members → Bool
  | [], _ => true
  | (k, v) :: o, p =>
    (match ifContains p k with
      | some w => v.equal w
      | none => false) && equalMembers o p

end

mutual

/-- No double of the one value is a zero whose counterpart in the other, at the same index or under
the same name, is the zero of opposite sign. -/
def Value.zerosAgree : Value → Value → Bool
  | .double d, .double e => zeroAgrees d e
  | .array a, .array b => zerosAgreeElements a b
  | .object o, .object p => zerosAgreeMembers o p
  | _, _ => true

def zerosAgreeElements : List Value → List Value → Bool
  | v :: a, w :: b => v.zerosAgree w && zerosAgreeElements a b
  | _, _ => true

def zerosAgreeMembers : Members → Members → Bool
  | [], _ => true
  | (k, v) :: o, p =>
    (match ifContains p k with
      | some w => v.zerosAgree w
      | none => true) && zerosAgreeMembers o p

end

/-! ## Elements and members -/

theorem equalElements_iff {a b : List Value} :
    equalElements a b = true ↔ ∀ x ∈ a.zip b, x.1.equal x.2 = true := by
  induction a generalizing b with
  | nil => simp [equalElements]
  | cons v a ih =>
    cases b with
    | nil => simp [equalElements]
    | cons w b => rw [equalElements, Bool.and_eq_true, ih, List.zip_cons_cons, List.forall_mem_cons]

theorem zerosAgreeElements_iff {a b : List Value} :
    zerosAgreeElements a b = true ↔ ∀ x ∈ a.zip b, x.1.zerosAgree x.2 = true := by
  induction a generalizing b with
  | nil => simp [zerosAgreeElements]
  | cons v a ih =>
    cases b with
    | nil => simp [zerosAgreeElements]
    | cons w b =>
      rw [zerosAgreeElements, Bool.and_eq_true, ih, List.zip_cons_cons, List.forall_mem_cons]

theorem equalMembers_iff {o p : Members} :
    equalMembers o p = true ↔ ∀ m ∈ o, ∃ w, ifContains p m.1 = some w ∧ m.2.equal w = true := by
  induction o with
  | nil => simp [equalMembers]
  | cons m o ih =>
    obtain ⟨k, v⟩ := m
    rw [equalMembers, Bool.and_eq_true, ih, List.forall_mem_cons]
    cases ifContains p k <;> simp

theorem zerosAgreeMembers_iff {o p : Members} :
    zerosAgreeMembers o p = true ↔
      ∀ m ∈ o, ∀ w, ifContains p m.1 = some w → m.2.zerosAgree w = true := by
  induction o with
  | nil => simp [zerosAgreeMembers]
  | cons m o ih =>
    obtain ⟨k, v⟩ := m
    rw [zerosAgreeMembers, Bool.and_eq_true, ih, List.forall_mem_cons]
    cases ifContains p k <;> simp

/-! ## Reflexivity -/

mutual

/-- No double of the value is a NaN. -/
def Value.NoNaN : Value → Prop
  | .double d => isNaN d = false
  | .array a => NoNaNElements a
  | .object o => NoNaNMembers o
  | _ => True

def NoNaNElements : List Value → Prop
  | [] => True
  | v :: a => v.NoNaN ∧ NoNaNElements a

def NoNaNMembers : Members → Prop
  | [] => True
  | (_, v) :: o => v.NoNaN ∧ NoNaNMembers o

end

theorem noNaNElements_iff {a : List Value} : NoNaNElements a ↔ ∀ v ∈ a, v.NoNaN := by
  induction a with
  | nil => simp [NoNaNElements]
  | cons v a ih => rw [NoNaNElements, ih, List.forall_mem_cons]

theorem noNaNMembers_iff {o : Members} : NoNaNMembers o ↔ ∀ m ∈ o, m.2.NoNaN := by
  induction o with
  | nil => simp [NoNaNMembers]
  | cons m o ih => rw [NoNaNMembers, ih, List.forall_mem_cons]

@[simp] theorem noNaN_array {a : List Value} : (Value.array a).NoNaN ↔ ∀ v ∈ a, v.NoNaN := by
  rw [Value.NoNaN, noNaNElements_iff]

@[simp] theorem noNaN_object {o : Members} : (Value.object o).NoNaN ↔ ∀ m ∈ o, m.2.NoNaN := by
  rw [Value.NoNaN, noNaNMembers_iff]

/-- **A value equals itself** unless it holds a NaN. -/
theorem Value.equal_self {v : Value} (hv : v.WellFormed) (hnan : v.NoNaN) : v.equal v = true := by
  induction v using Value.induction with
  | null => rfl
  | bool b => simp [Value.equal]
  | int64 i => simp [Value.equal]
  | uint64 u => simp [Value.equal]
  | double d =>
    rw [Value.NoNaN] at hnan
    simp [Value.equal, ieeeEqual, hnan]
  | string s => simp [Value.equal]
  | array a ih =>
    rw [wellFormed_array] at hv
    rw [noNaN_array] at hnan
    rw [Value.equal, beq_self_eq_true, Bool.true_and, equalElements_iff]
    intro x hx
    have hsame : a.zip a = a.map fun v ↦ (v, v) := List.zipWith_self
    obtain ⟨w, hw, rfl⟩ := List.mem_map.mp (hsame ▸ hx)
    exact ih w hw (hv w hw) (hnan w hw)
  | object o ih =>
    rw [wellFormed_object] at hv
    rw [noNaN_object] at hnan
    rw [Value.equal, beq_self_eq_true, Bool.true_and, equalMembers_iff]
    intro m hm
    exact ⟨m.2, ifContains_of_mem hv.1 hm, ih m hm (hv.2 m hm) (hnan m hm)⟩

end Json

end BoostConnector
