import BoostConnector.Collections.SortByKey
import BoostConnector.Json.Equality

/-!
# What a JSON value contributes to a digest

`updateSha256 v` is the concatenation of all bytes that `update_sha256(ctx, v)` passes to
`SHA256_Update`: `null` and the booleans as text, the numbers as eight little-endian bytes, strings
as they are, arrays element by element and objects member by member, names in increasing order.

The main result compares the two traversals of a value, this one and the equality of
Boost.JSON. Equal values are laid out alike, byte for byte in the same places, so that the bytes
differ only where the values do; and equal values differ only in the sign of a zero
(`updateSha256_eq_iff`).
-/

namespace BoostConnector

namespace Json

open Collections

/-! ## Numbers -/

/-- `native_to_little`, byte by byte. -/
def littleEndian (v : BitVec 64) : Bytes :=
  (List.range 8).map fun i ↦ UInt8.ofBitVec (v.extractLsb' (8 * i) 8)

@[simp] theorem length_littleEndian (v : BitVec 64) : (littleEndian v).length = 8 := by
  rw [littleEndian, List.length_map, List.length_range]

theorem littleEndian_injective {v w : BitVec 64} (h : littleEndian v = littleEndian w) : v = w := by
  apply BitVec.eq_of_getLsbD_eq
  intro j hj
  have hbyte : v.extractLsb' (8 * (j / 8)) 8 = w.extractLsb' (8 * (j / 8)) 8 := by
    have hi : j / 8 ∈ List.range 8 := by rw [List.mem_range]; omega
    exact congrArg UInt8.toBitVec (List.map_inj_left.mp h _ hi)
  have hbit := congrArg (fun b : BitVec 8 ↦ b.getLsbD (j % 8)) hbyte
  simpa [BitVec.getLsbD_extractLsb', Nat.mod_lt, Nat.div_add_mod] using hbit

@[simp] theorem littleEndian_inj {v w : BitVec 64} : littleEndian v = littleEndian w ↔ v = w :=
  ⟨littleEndian_injective, congrArg littleEndian⟩

def updateBool (val : Bool) : Bytes := [if val then 49 else 48]

def updateInt64 (v : BitVec 64) : Bytes := littleEndian v

def updateUint64 (v : BitVec 64) : Bytes := littleEndian v

def updateDouble (v : BitVec 64) : Bytes := littleEndian v

def updateString (s : Bytes) : Bytes := s

/-! ## Values -/

/-- `update_object` sorts pairs of a name and a pointer to the value. Here the pair holds what the
value contributes, which the comparison `by_key` does not look at either. -/
def updateObject (pointers : List (Bytes × Bytes)) : Bytes :=
  (sortByKey pointers).flatMap fun kv ↦ kv.1 ++ kv.2

mutual

def updateSha256 : Value → Bytes
  | .array a => updateArray a
  | .null => ascii "null"
  | .bool b => updateBool b
  | .int64 i => updateInt64 i
  | .uint64 u => updateUint64 u
  | .double d => updateDouble d
  | .string s => updateString s
  | .object o => updateObject (updateMembers o)

def updateArray : List Value → Bytes
  | [] => []
  | v :: a => updateSha256 v ++ updateArray a

def updateMembers : Members → List (Bytes × Bytes)
  | [] => []
  | (k, v) :: o => (k, updateSha256 v) :: updateMembers o

end

theorem updateArray_eq_flatMap (a : List Value) : updateArray a = a.flatMap updateSha256 := by
  induction a with
  | nil => simp [updateArray]
  | cons v a ih => rw [updateArray, ih, List.flatMap_cons]

theorem updateMembers_eq_map (o : Members) :
    updateMembers o = o.map fun m ↦ (m.1, updateSha256 m.2) := by
  induction o with
  | nil => simp [updateMembers]
  | cons m o ih => rw [updateMembers, ih, List.map_cons]

/-- The members in the order of their names, each giving its name and its value. -/
theorem updateObject_updateMembers (o : Members) :
    updateObject (updateMembers o) =
      (sortByKey o).flatMap fun m ↦ m.1 ++ updateSha256 m.2 := by
  rw [updateObject, updateMembers_eq_map,
    sortByKey_map (fun m ↦ (m.1, updateSha256 m.2)) fun _ ↦ rfl, List.flatMap_map]

/-- The order of the members does not matter. -/
theorem updateObject_eq_of_perm {o p : Members} (h : o.Perm p) (ho : (o.map Prod.fst).Nodup) :
    updateObject (updateMembers o) = updateObject (updateMembers p) := by
  rw [updateObject_updateMembers, updateObject_updateMembers, sortByKey_eq_of_perm h ho]

example : updateSha256 (.object [(ascii "b", .bool true), (ascii "a", .null)]) =
    ascii "anullb1" := by decide

/-! ## Equal values -/

/-- The two values give equally many bytes, and the same ones just when their zeros agree. -/
def Aligned (v w : Value) : Prop :=
  (updateSha256 v).length = (updateSha256 w).length ∧
    (updateSha256 v = updateSha256 w ↔ v.zerosAgree w = true)

theorem aligned_of_eq {v w : Value} (h : updateSha256 v = updateSha256 w)
    (hzeros : v.zerosAgree w = true) : Aligned v w :=
  ⟨congrArg List.length h, iff_of_true h hzeros⟩

theorem aligned_double {d e : BitVec 64} (h : ieeeEqual d e = true) :
    Aligned (.double d) (.double e) := by
  rw [Aligned, updateSha256, updateSha256, updateDouble, updateDouble, Value.zerosAgree]
  exact ⟨by simp, littleEndian_inj.trans (eq_iff_zeroAgrees h)⟩

theorem aligned_array {a b : List Value} (hlen : a.length = b.length)
    (h : ∀ x ∈ a.zip b, Aligned x.1 x.2) : Aligned (.array a) (.array b) := by
  have ha : updateArray a = (a.zip b).flatMap fun x ↦ updateSha256 x.1 := by
    conv_lhs => rw [updateArray_eq_flatMap, ← List.map_fst_zip hlen.le, List.flatMap_map]
  have hb : updateArray b = (a.zip b).flatMap fun x ↦ updateSha256 x.2 := by
    conv_lhs => rw [updateArray_eq_flatMap, ← List.map_snd_zip hlen.ge, List.flatMap_map]
  rw [Aligned, updateSha256, updateSha256, Value.zerosAgree, zerosAgreeElements_iff, ha, hb]
  constructor
  · rw [List.length_flatMap, List.length_flatMap]
    exact congrArg List.sum (List.map_congr_left fun x hx ↦ (h x hx).1)
  · rw [flatMap_eq_flatMap_iff fun x hx ↦ (h x hx).1]
    exact forall₂_congr fun x hx ↦ (h x hx).2

/-- Members of two objects of the same size, paired off by name, exhaust both. -/
theorem perm_counterparts {o p : Members} (ho : (o.map Prod.fst).Nodup)
    (hlen : o.length = p.length) {g : Bytes × Value → Value} (h : ∀ m ∈ o, (m.1, g m) ∈ p) :
    (o.map fun m ↦ (m.1, g m)).Perm p := by
  have hnodup : (o.map fun m ↦ (m.1, g m)).Nodup := by
    refine List.Nodup.of_map Prod.fst ?_
    rwa [List.map_map]
  have hsub : o.map (fun m ↦ (m.1, g m)) ⊆ p := by
    intro x hx
    obtain ⟨m, hm, rfl⟩ := List.mem_map.mp hx
    exact h m hm
  refine (List.subperm_of_subset hnodup hsub).perm_of_length_le ?_
  rw [List.length_map, hlen]

theorem aligned_object {o p : Members} (ho : (o.map Prod.fst).Nodup)
    (hlen : o.length = p.length) {g : Bytes × Value → Value}
    (hg : ∀ m ∈ o, ifContains p m.1 = some (g m)) (h : ∀ m ∈ o, Aligned m.2 (g m)) :
    Aligned (.object o) (.object p) := by
  have hperm := perm_counterparts ho hlen fun m hm ↦ mem_of_ifContains (hg m hm)
  -- both objects are laid out in the order of the members of the first
  have hright : updateObject (updateMembers p) =
      (sortByKey o).flatMap fun m ↦ m.1 ++ updateSha256 (g m) := by
    rw [updateObject_updateMembers, ← sortByKey_eq_of_perm hperm (by rwa [List.map_map]),
      sortByKey_map (fun m ↦ (m.1, g m)) fun _ ↦ rfl, List.flatMap_map]
  have hlength : ∀ m ∈ sortByKey o,
      (m.1 ++ updateSha256 m.2).length = (m.1 ++ updateSha256 (g m)).length := by
    intro m hm
    rw [List.length_append, List.length_append, (h m (mem_sortByKey.mp hm)).1]
  rw [Aligned, updateSha256, updateSha256, Value.zerosAgree, zerosAgreeMembers_iff,
    updateObject_updateMembers o, hright]
  constructor
  · rw [List.length_flatMap, List.length_flatMap]
    exact congrArg List.sum (List.map_congr_left hlength)
  · rw [flatMap_eq_flatMap_iff hlength]
    constructor
    · intro heq m hm w hw
      obtain rfl : g m = w := Option.some_inj.mp ((hg m hm).symm.trans hw)
      exact (h m hm).2.mp (List.append_cancel_left (heq m (mem_sortByKey.mpr hm)))
    · intro hzeros m hm
      have hm := mem_sortByKey.mp hm
      rw [(h m hm).2.mpr (hzeros m hm _ (hg m hm))]

/-- **Equality against the digest.** Two equal values contribute the same bytes exactly when no zero
of the one stands against the zero of the other sign. -/
theorem aligned_of_equal {v w : Value} (hv : v.WellFormed) (hw : w.WellFormed)
    (h : v.equal w = true) : Aligned v w := by
  induction v using Value.induction generalizing w with
  | null =>
    cases w with
    | null => exact aligned_of_eq rfl (by rw [Value.zerosAgree] <;> simp)
    | _ => simp [Value.equal] at h
  | bool b =>
    cases w with
    | bool c =>
      rw [Value.equal, beq_iff_eq] at h
      exact aligned_of_eq (by rw [h]) (by rw [Value.zerosAgree] <;> simp)
    | _ => simp [Value.equal] at h
  | int64 i =>
    cases w with
    | int64 j =>
      rw [Value.equal, beq_iff_eq] at h
      exact aligned_of_eq (by rw [h]) (by rw [Value.zerosAgree] <;> simp)
    | uint64 u =>
      -- both kinds write the same eight bytes
      rw [Value.equal, int64EqualUint64, Bool.and_eq_true, beq_iff_eq] at h
      exact aligned_of_eq (by rw [h.2]; rfl) (by rw [Value.zerosAgree] <;> simp)
    | _ => simp [Value.equal] at h
  | uint64 u =>
    cases w with
    | int64 i =>
      rw [Value.equal, int64EqualUint64, Bool.and_eq_true, beq_iff_eq] at h
      exact aligned_of_eq (by rw [h.2]; rfl) (by rw [Value.zerosAgree] <;> simp)
    | uint64 t =>
      rw [Value.equal, beq_iff_eq] at h
      exact aligned_of_eq (by rw [h]) (by rw [Value.zerosAgree] <;> simp)
    | _ => simp [Value.equal] at h
  | double d =>
    cases w with
    | double e =>
      rw [Value.equal] at h
      exact aligned_double h
    | _ => simp [Value.equal] at h
  | string s =>
    cases w with
    | string t =>
      rw [Value.equal, beq_iff_eq] at h
      exact aligned_of_eq (by rw [h]) (by rw [Value.zerosAgree] <;> simp)
    | _ => simp [Value.equal] at h
  | array a ih =>
    cases w with
    | array b =>
      rw [Value.equal, Bool.and_eq_true, beq_iff_eq, equalElements_iff] at h
      rw [wellFormed_array] at hv hw
      refine aligned_array h.1 fun x hx ↦ ?_
      obtain ⟨ha, hb⟩ := List.of_mem_zip hx
      exact ih x.1 ha (hv x.1 ha) (hw x.2 hb) (h.2 x hx)
    | _ => simp [Value.equal] at h
  | object o ih =>
    cases w with
    | object p =>
      rw [Value.equal, Bool.and_eq_true, beq_iff_eq, equalMembers_iff] at h
      rw [wellFormed_object] at hv hw
      obtain ⟨hlen, hmem⟩ := h
      choose! g hg hequal using hmem
      refine aligned_object hv.1 hlen hg fun m hm ↦ ?_
      exact ih m hm (hv.2 m hm) (hw.2 _ (mem_of_ifContains (hg m hm))) (hequal m hm)
    | _ => simp [Value.equal] at h

end Json

end BoostConnector
