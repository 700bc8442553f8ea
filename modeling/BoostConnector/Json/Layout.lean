import BoostConnector.Collections.ListPool
import BoostConnector.Json.Digest

/-!
# The layout of a JSON value

The digest concatenates what the parts of a value contribute and keeps no record of where one part
ends and the next begins, nor of what kind it is. `Value.layout` is that record: the kinds of the
parts and the lengths of names and strings, in the order in which the digest visits them.

The bytes and the layout together determine the value, as Boost.JSON compares values
(`equal_of_updateSha256_eq`); the bytes alone do not.
-/

namespace BoostConnector

namespace Json

open Collections

inductive Layout
  | null
  | bool
  | int64
  | uint64
  | double
  | string (length : ℕ)
  | array (elements : List Layout)
  /-- The lengths of the names and the layouts of the values, in the order of the names. -/
  | object (members : List (ℕ × Layout))

mutual

def Value.layout : Value → Layout
  | .null => .null
  | .bool _ => .bool
  | .int64 _ => .int64
  | .uint64 _ => .uint64
  | .double _ => .double
  | .string s => .string s.length
  | .array a => .array (layoutElements a)
  | .object o => .object ((sortByKey (layoutMembers o)).map fun m ↦ (m.1.length, m.2))

def layoutElements : List Value → List Layout
  | [] => []
  | v :: a => v.layout :: layoutElements a

def layoutMembers : Members → List (Bytes × Layout)
  | [] => []
  | (k, v) :: o => (k, v.layout) :: layoutMembers o

end

theorem layoutElements_eq_map (a : List Value) : layoutElements a = a.map Value.layout := by
  induction a with
  | nil => simp [layoutElements]
  | cons v a ih => rw [layoutElements, ih, List.map_cons]

theorem layoutMembers_eq_map (o : Members) :
    layoutMembers o = o.map fun m ↦ (m.1, m.2.layout) := by
  induction o with
  | nil => simp [layoutMembers]
  | cons m o ih => rw [layoutMembers, ih, List.map_cons]

/-- The layout of a name and of the value that follows it. -/
def memberLayout (m : Bytes × Value) : ℕ × Layout := (m.1.length, m.2.layout)

theorem layout_array (a : List Value) : (Value.array a).layout = .array (a.map Value.layout) := by
  rw [Value.layout, layoutElements_eq_map]

theorem layout_object (o : Members) :
    (Value.object o).layout = .object ((sortByKey o).map memberLayout) := by
  rw [Value.layout, layoutMembers_eq_map,
    sortByKey_map (fun m : Bytes × Value ↦ (m.1, m.2.layout)) fun _ ↦ rfl, List.map_map]
  rfl

/-! ## Values of one layout -/

theorem forall₂_of_layout_array {a b : List Value}
    (h : (Value.array a).layout = (Value.array b).layout) :
    List.Forall₂ (fun v w ↦ v.layout = w.layout) a b := by
  rw [layout_array, layout_array, Layout.array.injEq] at h
  exact forall₂_of_map_eq h

theorem forall₂_of_layout_object {o p : Members}
    (h : (Value.object o).layout = (Value.object p).layout) :
    List.Forall₂ (fun m n ↦ memberLayout m = memberLayout n) (sortByKey o) (sortByKey p) := by
  rw [layout_object, layout_object, Layout.object.injEq] at h
  exact forall₂_of_map_eq h

/-- The layout determines the number of bytes. -/
theorem length_updateSha256_eq {v w : Value} (h : v.layout = w.layout) :
    (updateSha256 v).length = (updateSha256 w).length := by
  induction v using Value.induction generalizing w with
  | string s =>
    cases w with
    | string t =>
      rw [Value.layout, Value.layout, Layout.string.injEq] at h
      exact h
    | _ => simp [Value.layout] at h
  | array a ih =>
    cases w with
    | array b =>
      rw [updateSha256, updateSha256, updateArray_eq_flatMap, updateArray_eq_flatMap]
      apply length_flatMap_eq
      exact forall₂_imp_of_mem (forall₂_of_layout_array h) fun v hv w _ hvw ↦ ih v hv hvw
    | _ => simp [Value.layout] at h
  | object o ih =>
    cases w with
    | object p =>
      rw [updateSha256, updateSha256, updateObject_updateMembers, updateObject_updateMembers]
      apply length_flatMap_eq
      refine forall₂_imp_of_mem (forall₂_of_layout_object h) fun m hm n _ hmn ↦ ?_
      obtain ⟨hname, hvalue⟩ := Prod.mk.injEq .. ▸ hmn
      rw [List.length_append, List.length_append, hname, ih m (mem_sortByKey.mp hm) hvalue]
    | _ => simp [Value.layout] at h
  | _ => cases w <;> first | rfl | simp [Value.layout] at h

theorem length_member_eq {m n : Bytes × Value} (h : memberLayout m = memberLayout n) :
    (m.1 ++ updateSha256 m.2).length = (n.1 ++ updateSha256 n.2).length := by
  rw [memberLayout, memberLayout, Prod.mk.injEq] at h
  rw [List.length_append, List.length_append, h.1, length_updateSha256_eq h.2]

/-- Members of one layout that contribute the same bytes have one name, and values that contribute
the same bytes. -/
theorem member_eq_of_bytes_eq {m n : Bytes × Value} (h : memberLayout m = memberLayout n)
    (hbytes : m.1 ++ updateSha256 m.2 = n.1 ++ updateSha256 n.2) :
    m.1 = n.1 ∧ m.2.layout = n.2.layout ∧ updateSha256 m.2 = updateSha256 n.2 := by
  rw [memberLayout, memberLayout, Prod.mk.injEq] at h
  obtain ⟨hname, hvalue⟩ := List.append_inj hbytes h.1
  exact ⟨hname, h.2, hvalue⟩

theorem equal_array_of_bytes {a b : List Value}
    (ih : ∀ v ∈ a, ∀ w ∈ b, v.layout = w.layout → updateSha256 v = updateSha256 w →
      v.equal w = true)
    (hlayout : (Value.array a).layout = (Value.array b).layout)
    (h : updateSha256 (.array a) = updateSha256 (.array b)) :
    (Value.array a).equal (.array b) = true := by
  have hlay := forall₂_of_layout_array hlayout
  rw [updateSha256, updateSha256, updateArray_eq_flatMap, updateArray_eq_flatMap] at h
  have hbytes := forall₂_of_flatMap_eq (hlay.imp fun _ _ ↦ length_updateSha256_eq) h
  rw [Value.equal, Bool.and_eq_true, beq_iff_eq, equalElements_iff]
  refine ⟨hlay.length_eq, fun x hx ↦ ?_⟩
  obtain ⟨ha, hb⟩ := List.of_mem_zip hx
  exact ih x.1 ha x.2 hb (List.forall₂_zip hlay hx) (List.forall₂_zip hbytes hx)

/-- The names are unique, so that a member is found by its name. -/
theorem equal_object_of_bytes {o p : Members} (hp : (p.map Prod.fst).Nodup)
    (ih : ∀ m ∈ o, ∀ n ∈ p, m.2.layout = n.2.layout → updateSha256 m.2 = updateSha256 n.2 →
      m.2.equal n.2 = true)
    (hlayout : (Value.object o).layout = (Value.object p).layout)
    (h : updateSha256 (.object o) = updateSha256 (.object p)) :
    (Value.object o).equal (.object p) = true := by
  have hlay := forall₂_of_layout_object hlayout
  rw [updateSha256, updateSha256, updateObject_updateMembers, updateObject_updateMembers] at h
  have hbytes := forall₂_of_flatMap_eq (hlay.imp fun _ _ ↦ length_member_eq) h
  have hlen : o.length = p.length := by
    simpa [sortByKey, List.length_insertionSort] using hlay.length_eq
  rw [Value.equal, Bool.and_eq_true, beq_iff_eq, equalMembers_iff]
  refine ⟨hlen, fun m hm ↦ ?_⟩
  -- the member in the same place of the other object
  obtain ⟨n, hn, hname, hvalue, hrest⟩ :=
    exists_of_forall₂ (List.Forall₂.mp (fun _ _ ↦ member_eq_of_bytes_eq) hlay hbytes)
      (mem_sortByKey.mpr hm)
  have hn := mem_sortByKey.mp hn
  exact ⟨n.2, hname ▸ ifContains_of_mem hp hn, ih m hm n hn hvalue hrest⟩

/-- **The bytes determine a value of given layout**, unless it holds a NaN. -/
theorem equal_of_updateSha256_eq {v w : Value} (hw : w.WellFormed) (hnan : v.NoNaN)
    (hlayout : v.layout = w.layout) (h : updateSha256 v = updateSha256 w) : v.equal w = true := by
  induction v using Value.induction generalizing w with
  | null =>
    cases w with
    | null => rfl
    | _ => simp [Value.layout] at hlayout
  | bool b =>
    cases w with
    | bool c =>
      have hbc : b = c := by
        rw [updateSha256, updateSha256] at h
        revert h
        cases b <;> cases c <;> decide
      rw [hbc, Value.equal, beq_self_eq_true]
    | _ => simp [Value.layout] at hlayout
  | int64 i =>
    cases w with
    | int64 j =>
      rw [Value.equal, beq_iff_eq]
      exact littleEndian_injective h
    | _ => simp [Value.layout] at hlayout
  | uint64 i =>
    cases w with
    | uint64 j =>
      rw [Value.equal, beq_iff_eq]
      exact littleEndian_injective h
    | _ => simp [Value.layout] at hlayout
  | double d =>
    cases w with
    | double e =>
      obtain rfl : d = e := littleEndian_injective h
      rw [Value.NoNaN] at hnan
      simp [Value.equal, ieeeEqual, hnan]
    | _ => simp [Value.layout] at hlayout
  | string s =>
    cases w with
    | string t =>
      rw [Value.equal, beq_iff_eq]
      exact h
    | _ => simp [Value.layout] at hlayout
  | array a ih =>
    cases w with
    | array b =>
      rw [wellFormed_array] at hw
      rw [noNaN_array] at hnan
      exact equal_array_of_bytes (fun v hv w hwb ↦ ih v hv (hw w hwb) (hnan v hv)) hlayout h
    | _ => simp [Value.layout] at hlayout
  | object o ih =>
    cases w with
    | object p =>
      rw [wellFormed_object] at hw
      rw [noNaN_object] at hnan
      exact equal_object_of_bytes hw.1
        (fun m hm n hn ↦ ih m hm (hw.2 n hn) (hnan m hm)) hlayout h
    | _ => simp [Value.layout] at hlayout

end Json

end BoostConnector
