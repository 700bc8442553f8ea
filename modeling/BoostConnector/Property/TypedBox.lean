import BoostConnector.Collections.ListPool
import BoostConnector.Property.PropertyValue

/-!
# Typed boxes

What a `property_value` is for: a box that is empty or holds one value of some type. A move takes
the content out of a box and leaves it empty, and a box that is moved to itself stays as it is.

A `property_value` has such a content if its buffer is what its table is for and its objects are
alive: the one in the buffer, and the one that this leads to (`Represents`). No object may be one of
two boxes (`Models.apart`), since a move changes the object that it moves from. The content of a
temporary is accounted for by `Models.Aside`: its objects are no box's objects.
-/

namespace BoostConnector

namespace Property

open Collections

variable {ι : Type} {types : Types ι}

/-! ## The purpose -/

/-- `==` and `boost::hash` of each type agree. -/
structure Types.Lawful (types : Types ι) : Prop where
  refl : ∀ T x, types.equalTo T x x
  symm : ∀ T x y, types.equalTo T x y → types.equalTo T y x
  trans : ∀ T x y z, types.equalTo T x y → types.equalTo T y z → types.equalTo T x z
  hash_eq : ∀ T x y, types.equalTo T x y → types.hash T x = types.hash T y

inductive Content (types : Types ι) where
  | empty
  | holding (T : ι) (v : types.Value T)

namespace Content

section Observers

variable [DecidableEq ι]

def query (T : ι) : Content types → Option (types.Value T)
  | empty => none
  | holding T' v => if h : T' = T then some (h ▸ v) else none

def isEmpty : Content types → Bool
  | empty => true
  | holding _ _ => false

def equal : Content types → Content types → Bool
  | empty, d => d.isEmpty
  | holding T x, d => (d.query T).elim false (types.equalTo T x)

def hashValue : Content types → UInt64
  | empty => 0
  | holding T x => types.hash T x

def print : Content types → Bytes
  | empty => ascii "empty"
  | holding T x => types.print T x

theorem equal_eq_true_iff {c d : Content types} : c.equal d = true ↔
    c = empty ∧ d = empty ∨ ∃ T x y, c = holding T x ∧ d = holding T y ∧ types.equalTo T x y := by
  constructor
  · intro h
    cases c with
    | empty =>
      cases d with
      | empty => exact .inl ⟨rfl, rfl⟩
      | holding T y => exact absurd h (by simp [equal, isEmpty])
    | holding T x =>
      cases d with
      | empty => exact absurd h (by simp [equal, query])
      | holding T' y =>
        by_cases hT : T' = T
        · subst hT
          exact .inr ⟨T', x, y, rfl, rfl, by simpa [equal, query] using h⟩
        · exact absurd h (by simp [equal, query, hT])
  · rintro (⟨rfl, rfl⟩ | ⟨T, x, y, rfl, rfl, h⟩)
    · rfl
    · simpa [equal, query] using h

theorem equal_refl (c : Content types) (h : types.Lawful) : c.equal c = true := by
  cases c with
  | empty => rfl
  | holding T x => exact equal_eq_true_iff.mpr (.inr ⟨T, x, x, rfl, rfl, h.refl T x⟩)

theorem equal_symm {c d : Content types} (h : types.Lawful) (hcd : c.equal d = true) :
    d.equal c = true := by
  obtain ⟨rfl, rfl⟩ | ⟨T, x, y, rfl, rfl, hxy⟩ := equal_eq_true_iff.mp hcd
  · rfl
  · exact equal_eq_true_iff.mpr (.inr ⟨T, y, x, rfl, rfl, h.symm T x y hxy⟩)

theorem equal_trans {c d e : Content types} (h : types.Lawful) (hcd : c.equal d = true)
    (hde : d.equal e = true) : c.equal e = true := by
  obtain ⟨rfl, rfl⟩ | ⟨T, x, y, rfl, rfl, hxy⟩ := equal_eq_true_iff.mp hcd
  · exact hde
  · obtain ⟨hd, _⟩ | ⟨T', y', z, hd, rfl, hyz⟩ := equal_eq_true_iff.mp hde
    · cases hd
    · cases hd
      exact equal_eq_true_iff.mpr (.inr ⟨T, x, z, rfl, rfl, h.trans T x y z hxy hyz⟩)

theorem hashValue_eq_of_equal {c d : Content types} (h : types.Lawful) (hcd : c.equal d = true) :
    c.hashValue = d.hashValue := by
  obtain ⟨rfl, rfl⟩ | ⟨T, x, y, rfl, rfl, hxy⟩ := equal_eq_true_iff.mp hcd
  · rfl
  · exact h.hash_eq T x y hxy

end Observers

end Content

/-- The boxes of a program, `none` for one that was destroyed. -/
abbrev Boxes (types : Types ι) := List (Option (Content types))

namespace Boxes

def box (a : Boxes types) (i : ℕ) : Option (Content types) := a[i]?.join

def step : PropertyValue.Statement types → Boxes types → Option (Boxes types)
  | .default, a => some (a ++ [some .empty])
  | .construct T v, a => some (a ++ [some (.holding T v)])
  | .moveConstruct other, a => do
    let c ← a.box other
    some (a.set other (some .empty) ++ [some c])
  | .moveAssign self other, a => do
    let c ← a.box other
    let _ ← a.box self
    some (if self = other then a else (a.set other (some .empty)).set self (some c))
  | .destroy self, a => do
    let _ ← a.box self
    some (a.set self none)

def run (program : List (PropertyValue.Statement types)) : Option (Boxes types) :=
  Transition.exec step program []

end Boxes

/-! ## Boxes and their contents -/

namespace PropertyValue

variable [DecidableEq ι] {objects objects' : List (Obj types)} {p q : PropertyValue ι}
  {c d : Content types} {T : ι} {v : types.Value T} {id : ℕ}

theorem read_eq_some_iff {shape : Shape ι} {x : shape.Value types} :
    read objects shape id = some x ↔ objects[id]? = some ⟨shape, x, 0⟩ := by
  rw [read]
  cases h : objects[id]? with
  | none => simp
  | some o =>
    obtain ⟨shape', y, n⟩ := o
    by_cases hshape : shape' = shape
    · subst hshape
      by_cases hn : n = 0 <;> simp [hn]
    · simp [hshape]

/-- The buffer is what the table is for, the table fits the size of the type, and the objects are
alive. -/
inductive Represents (objects : List (Obj types)) : PropertyValue ι → Content types → Prop
  | void (sbo : Storage) : Represents objects ⟨sbo, .void⟩ .empty
  | short {T : ι} {v : types.Value T} {id : ℕ} (hsize : types.size T ≤ types.stringSize)
    (h : objects[id]? = some ⟨.value T, v, 0⟩) :
    Represents objects ⟨.object id, .short T⟩ (.holding T v)
  | long {T : ι} {v : types.Value T} {ptr id : ℕ} (hsize : types.stringSize < types.size T)
    (hptr : objects[ptr]? = some ⟨.uniquePtr T, some id, 0⟩)
    (h : objects[id]? = some ⟨.value T, v, 0⟩) :
    Represents objects ⟨.object ptr, .long T⟩ (.holding T v)

/-- The objects of a box: the one in its buffer, and the one that this leads to. -/
def owned (objects : List (Obj types)) : PropertyValue ι → List ℕ
  | ⟨.object id, .short _⟩ => [id]
  | ⟨.object id, .long T⟩ => id :: (Option.join (read objects (.uniquePtr T) id)).toList
  | _ => []

@[simp] theorem owned_void (sbo : Storage) : owned objects ⟨sbo, .void⟩ = [] := by
  cases sbo <;> rfl

@[simp] theorem owned_short (T : ι) (id : ℕ) : owned objects ⟨.object id, .short T⟩ = [id] := rfl

theorem owned_long {ptr : ℕ} (h : objects[ptr]? = some ⟨.uniquePtr T, some id, 0⟩) :
    owned objects ⟨.object ptr, .long T⟩ = [ptr, id] := by
  rw [owned, read_eq_some_iff.mpr h]
  rfl

theorem info_short (T : ι) (id : ℕ) :
    JumpTable.info objects (.short T) (.object id) = ⟨some T, some id⟩ := rfl

theorem info_long {ptr : ℕ} (h : objects[ptr]? = some ⟨.uniquePtr T, some id, 0⟩) :
    JumpTable.info objects (.long T) (.object ptr) = ⟨some T, some id⟩ := by
  rw [JumpTable.info, read_eq_some_iff.mpr h]
  rfl

omit [DecidableEq ι] in
/-- A value and the `unique_ptr` to it are two objects. -/
theorem ptr_ne {ptr : ℕ} {x : Option ℕ} (hptr : objects[ptr]? = some ⟨.uniquePtr T, x, 0⟩)
    (h : objects[id]? = some ⟨.value T, v, 0⟩) : ptr ≠ id := by
  rintro rfl
  have heq := Option.some_inj.mp (hptr.symm.trans h)
  exact absurd (congrArg Obj.shape heq) (by simp)

namespace Represents

/-- What `info` says of a box: it is empty, or it holds a value, and where. -/
theorem info_cases (h : Represents objects p c) :
    (p.jt = .void ∧ c = .empty) ∨
      ∃ T v id, (p.jt = .short T ∨ p.jt = .long T) ∧ c = .holding T v ∧
        p.jt.info objects p.sbo = ⟨some T, some id⟩ ∧ read objects (.value T) id = some v := by
  cases h with
  | void sbo => exact .inl ⟨rfl, rfl⟩
  | @short T v id hsize h =>
    exact .inr ⟨T, v, id, .inl rfl, rfl, info_short T id, read_eq_some_iff.mpr h⟩
  | @long T v ptr id hsize hptr h =>
    exact .inr ⟨T, v, id, .inr rfl, rfl, info_long hptr, read_eq_some_iff.mpr h⟩

theorem query_eq (h : Represents objects p c) (T : ι) :
    p.query objects T = some (c.query T) := by
  obtain ⟨hjt, rfl⟩ | ⟨T', v, id, _, rfl, hinfo, hread⟩ := h.info_cases
  · simp [query, hjt, JumpTable.info, Content.query]
  · by_cases hT : T' = T
    · subst hT
      simp [query, hinfo, Content.query, hread]
    · simp [query, hinfo, Content.query, hT]

theorem queryVoid_eq (h : Represents objects p c) : p.queryVoid objects = c.isEmpty := by
  cases h <;> rfl

theorem hashValue_eq (h : Represents objects p c) :
    p.hashValue objects = some c.hashValue := by
  obtain ⟨hjt, rfl⟩ | ⟨T, v, id, hjt | hjt, rfl, hinfo, hread⟩ := h.info_cases
  · rw [hashValue, hjt]
    rfl
  all_goals
    rw [hjt] at hinfo
    simp [hashValue, hjt, JumpTable.hashValue, hinfo, hread, Content.hashValue]

theorem print_eq (h : Represents objects p c) : p.print objects = some c.print := by
  obtain ⟨hjt, rfl⟩ | ⟨T, v, id, hjt | hjt, rfl, hinfo, hread⟩ := h.info_cases
  · rw [print, hjt]
    rfl
  all_goals
    rw [hjt] at hinfo
    simp [print, hjt, JumpTable.toOstream, hinfo, hread, Content.print]

theorem equal_eq (hp : Represents objects p c) (hq : Represents objects q d) :
    p.equal objects q = some (c.equal d) := by
  obtain ⟨hjt, rfl⟩ | ⟨T, x, id, hjt | hjt, rfl, hinfo, hx⟩ := hp.info_cases
  · have hvoid : (q.jt.info objects q.sbo).type = none ↔ d.isEmpty := by
      rw [← hq.queryVoid_eq, queryVoid, decide_eq_true_iff]
    simp [equal, hjt, JumpTable.equal, Content.equal, hvoid]
  all_goals
    rw [hjt] at hinfo
    obtain ⟨hvoid, rfl⟩ | ⟨T', y, id', _, rfl, hinfo', hy⟩ := hq.info_cases
    · simp [equal, hjt, JumpTable.equal, hvoid, JumpTable.info, Content.equal, Content.query]
    · by_cases hT : T' = T
      · subst hT
        simp [equal, hjt, JumpTable.equal, hinfo, hinfo', hx, hy, Content.equal, Content.query]
      · simp [equal, hjt, JumpTable.equal, hinfo', Content.equal, Content.query, hT]

end Represents

/-! ## Frames -/

theorem destroyObject_eq {shape : Shape ι} {x : shape.Value types}
    (h : objects[id]? = some ⟨shape, x, 0⟩) :
    destroyObject objects shape id = some (objects.set id ⟨shape, x, 1⟩) := by
  rw [destroyObject, read_eq_some_iff.mpr h]
  rfl

theorem destroyUniquePtr_eq {ptr : ℕ} (hptr : objects[ptr]? = some ⟨.uniquePtr T, some id, 0⟩)
    (h : objects[id]? = some ⟨.value T, v, 0⟩) :
    destroyUniquePtr objects ptr T =
      some ((objects.set id ⟨.value T, v, 1⟩).set ptr ⟨.uniquePtr T, some id, 1⟩) := by
  -- the pointer itself is alive still
  have hstill : (objects.set id ⟨.value T, v, 1⟩)[ptr]? = some ⟨.uniquePtr T, some id, 0⟩ := by
    rw [List.getElem?_set_ne (ptr_ne hptr h).symm]
    exact hptr
  rw [destroyUniquePtr, read_eq_some_iff.mpr hptr]
  simp only [Option.bind_eq_bind, Option.bind_some, Option.elim_some, destroyObject_eq h,
    destroyObject_eq hstill]

/-- A new object is made, and only the one that it is made from is touched. -/
theorem moveObject_spec {shape : Shape ι} {x : shape.Value types}
    (h : objects[id]? = some ⟨shape, x, 0⟩) :
    ∃ objects', moveObject objects shape id = some objects' ∧
      objects'[objects.length]? = some ⟨shape, x, 0⟩ ∧ SameBut [id] objects objects' := by
  refine ⟨_, congrArg (Option.map _) (read_eq_some_iff.mpr h), ?_, ?_⟩
  · rw [List.getElem?_append_right (by simp)]
    simp
  · exact (sameBut_set id _ objects).trans (sameBut_append [id] _ _)

/-- The new box has new objects, and those there were are not touched. -/
theorem construct_spec (T : ι) (v : types.Value T) (objects : List (Obj types)) :
    ∃ p objects', construct T v objects = (p, objects') ∧ Represents objects' p (.holding T v) ∧
      SameBut [] objects objects' ∧ ∀ id ∈ p.owned objects', objects.length ≤ id := by
  by_cases hsize : types.size T ≤ types.stringSize
  · have hnew : (objects ++ [⟨.value T, v, 0⟩])[objects.length]? =
        some (⟨.value T, v, 0⟩ : Obj types) := by simp
    refine ⟨_, _, if_pos hsize, .short hsize hnew, sameBut_append _ _ _, fun id hid ↦ ?_⟩
    exact (List.mem_singleton.mp hid).ge
  · -- the value comes first, and then the `unique_ptr` to it
    have hvalue : (objects ++ [⟨.value T, v, 0⟩, ⟨.uniquePtr T, some objects.length, 0⟩])[
        objects.length]? = some (⟨.value T, v, 0⟩ : Obj types) := by simp
    have hptr : (objects ++ [⟨.value T, v, 0⟩, ⟨.uniquePtr T, some objects.length, 0⟩])[
        objects.length + 1]? = some (⟨.uniquePtr T, some objects.length, 0⟩ : Obj types) := by simp
    refine ⟨_, _, if_neg hsize, .long (not_le.mp hsize) hptr hvalue, sameBut_append _ _ _,
      fun id hid ↦ ?_⟩
    rw [owned_long hptr, List.mem_pair] at hid
    omega

namespace Represents

theorem lt_of_mem_owned (h : Represents objects p c) (hid : id ∈ p.owned objects) :
    id < objects.length := by
  cases h with
  | void sbo => exact absurd hid (by simp)
  | short hsize h =>
    rw [owned_short, List.mem_singleton] at hid
    exact hid ▸ (List.getElem?_eq_some_iff.mp h).1
  | long hsize hptr h =>
    rw [owned_long hptr, List.mem_pair] at hid
    obtain rfl | rfl := hid
    · exact (List.getElem?_eq_some_iff.mp hptr).1
    · exact (List.getElem?_eq_some_iff.mp h).1

/-- A box whose objects are not touched has the same content and the same objects. -/
theorem of_sameBut {touched : List ℕ} (h : Represents objects p c)
    (hsame : SameBut touched objects objects')
    (htouched : ∀ id ∈ p.owned objects, id ∉ touched) :
    Represents objects' p c ∧ p.owned objects' = p.owned objects := by
  cases h with
  | void sbo => exact ⟨.void sbo, by simp⟩
  | @short T v id hsize h =>
    exact ⟨.short hsize (hsame id _ h (htouched id (List.mem_singleton_self id))), rfl⟩
  | @long T v ptr id hsize hptr h =>
    rw [owned_long hptr] at htouched
    have hptr' := hsame ptr _ hptr (htouched ptr (by simp))
    have h' := hsame id _ h (htouched id (by simp))
    exact ⟨.long hsize hptr' h', (owned_long hptr').trans (owned_long hptr).symm⟩

/-- The content goes to the second box, and no object is touched but those of the first box. -/
theorem transfer_spec (h : Represents objects p c) (dest : PropertyValue ι) :
    ∃ p₁ p₂ objects', p.transfer dest objects = some (p₁, p₂, objects') ∧ p₁.jt = .void ∧
      Represents objects' p₂ c ∧ SameBut (p.owned objects) objects objects' ∧
      ∀ id ∈ p₂.owned objects', id ∈ p.owned objects ∨ objects.length ≤ id := by
  cases h with
  | void sbo =>
    exact ⟨⟨sbo, .void⟩, ⟨dest.sbo, .void⟩, objects, rfl, rfl, .void _, sameBut_refl _ _,
      fun id hid ↦ absurd hid (by simp)⟩
  | @short T v id hsize h =>
    obtain ⟨objects', hmove, hnew, hsame⟩ := moveObject_spec h
    refine ⟨⟨.object id, .void⟩, ⟨.object objects.length, .short T⟩, objects', ?_, rfl,
      .short hsize hnew, hsame, fun id' hid' ↦ .inr (List.mem_singleton.mp hid').ge⟩
    simp [transfer, JumpTable.moveConstruct, hmove]
  | @long T v ptr id hsize hptr h =>
    obtain ⟨objects', hmove, hnew, hsame⟩ := moveObject_spec hptr
    have hid : objects'[id]? = some ⟨.value T, v, 0⟩ :=
      hsame id _ h fun hmem ↦ ptr_ne hptr h (List.mem_singleton.mp hmem).symm
    refine ⟨⟨.object ptr, .void⟩, ⟨.object objects.length, .long T⟩, objects', ?_, rfl,
      .long hsize hnew hid, ?_, fun id' hid' ↦ ?_⟩
    · simp [transfer, JumpTable.moveConstruct, hmove]
    · rw [owned_long hptr]
      exact hsame.mono (by simp)
    · rw [owned_long hnew, List.mem_pair] at hid'
      rw [owned_long hptr]
      obtain rfl | rfl := hid'
      · exact .inr le_rfl
      · exact .inl (by simp)

theorem destroy_spec (h : Represents objects p c) :
    ∃ sbo objects', p.jt.destroy p.sbo objects = some (sbo, objects') ∧
      SameBut (p.owned objects) objects objects' := by
  cases h with
  | void sbo => exact ⟨sbo, objects, by cases sbo <;> rfl, sameBut_refl _ _⟩
  | @short T v id hsize h =>
    refine ⟨.raw, objects.set id ⟨.value T, v, 1⟩, ?_, sameBut_set id _ objects⟩
    rw [JumpTable.destroy, destroyObject_eq h]
    rfl
  | @long T v ptr id hsize hptr h =>
    refine ⟨.raw, (objects.set id ⟨.value T, v, 1⟩).set ptr ⟨.uniquePtr T, some id, 1⟩, ?_, ?_⟩
    · rw [JumpTable.destroy, destroyUniquePtr_eq hptr h]
      rfl
    · rw [owned_long hptr]
      exact ((sameBut_set id _ objects).mono (by simp)).trans ((sameBut_set ptr _ _).mono (by simp))

end Represents

/-! ## Memory -/

namespace Memory

variable {s : Memory types} {a : Boxes types} {i j : ℕ}

omit [DecidableEq ι] in
theorem box_set (hp : s.box i = some p) (objects : List (Obj types)) (e : Option (PropertyValue ι))
    (j : ℕ) : box ⟨objects, s.boxes.set i e⟩ j = if j = i then e else s.box j := by
  have hlt : i < s.boxes.length := by
    by_contra hge
    rw [box, List.getElem?_eq_none (by omega)] at hp
    exact absurd hp (by simp)
  by_cases hji : j = i
  · simp [box, hji, hlt]
  · simp [box, hji, List.getElem?_set_ne (Ne.symm hji)]

omit [DecidableEq ι] in
theorem box_concat (s : Memory types) (objects : List (Obj types)) (e : Option (PropertyValue ι))
    (j : ℕ) : box ⟨objects, s.boxes ++ [e]⟩ j = if j = s.boxes.length then e else s.box j := by
  rcases Nat.lt_trichotomy j s.boxes.length with hlt | rfl | hgt
  · simp [box, List.getElem?_append_left hlt, hlt.ne]
  · simp [box]
  · rw [if_neg hgt.ne', box, box, List.getElem?_eq_none (by simp; omega),
      List.getElem?_eq_none hgt.le]

/-- Each box has its content, and no object is one of two boxes. -/
structure Models (s : Memory types) (a : Boxes types) : Prop where
  rel : List.Forall₂ (Option.Rel (Represents s.objects)) s.boxes a
  apart : ∀ i j p q id, s.box i = some p → s.box j = some q → id ∈ p.owned s.objects →
    id ∈ q.owned s.objects → i = j

/-- The same for a temporary beside the boxes. -/
structure Aside (s : Memory types) (t : PropertyValue ι) (c : Content types) : Prop where
  represents : Represents s.objects t c
  apart : ∀ i p, s.box i = some p → ∀ id ∈ p.owned s.objects, id ∉ t.owned s.objects

namespace Models

theorem box_rel (h : Models s a) (i : ℕ) :
    Option.Rel (Represents s.objects) (s.box i) (a.box i) := by
  have hrel := forall₂_getElem?_rel h.rel i
  rw [box, Boxes.box]
  generalize s.boxes[i]? = e at hrel ⊢
  generalize a[i]? = d at hrel ⊢
  cases hrel with
  | some hed => exact hed
  | none => exact .none

theorem exists_content (h : Models s a) (hp : s.box i = some p) :
    ∃ c, a.box i = some c ∧ Represents s.objects p c := by
  have hrel := h.box_rel i
  rw [hp] at hrel
  generalize a.box i = d at hrel ⊢
  cases hrel with
  | some hpc => exact ⟨_, rfl, hpc⟩

/-- The same boxes are alive. -/
theorem alive_or_none (h : Models s a) (i : ℕ) :
    (∃ p c, s.box i = some p ∧ a.box i = some c) ∨ s.box i = none ∧ a.box i = none := by
  have hrel := h.box_rel i
  generalize s.box i = e at hrel ⊢
  generalize a.box i = d at hrel ⊢
  cases hrel with
  | some hpc => exact .inl ⟨_, _, rfl, rfl⟩
  | none => exact .inr ⟨rfl, rfl⟩

/-- A box is overwritten by one whose objects are no other box's. -/
theorem set (h : Models s a) (hi : s.box i = some p) {e : Option (PropertyValue ι)}
    {d : Option (Content types)} (hrel : Option.Rel (Represents s.objects) e d)
    (hapart : ∀ q id, e = some q → id ∈ q.owned s.objects → ∀ j r, j ≠ i → s.box j = some r →
      id ∉ r.owned s.objects) : Models ⟨s.objects, s.boxes.set i e⟩ (a.set i d) := by
  refine ⟨forall₂_set h.rel i hrel, fun j k q r id hq hr hqid hrid ↦ ?_⟩
  rw [box_set hi] at hq hr
  split_ifs at hq hr with hj hk hk
  · rw [hj, hk]
  · exact absurd hrid (hapart q id hq hqid k r hk hr)
  · exact absurd hqid (hapart r id hr hrid j q hj hq)
  · exact h.apart j k q r id hq hr hqid hrid

theorem concat (h : Models s a) (ha : Aside s p c) :
    Models ⟨s.objects, s.boxes ++ [some p]⟩ (a ++ [some c]) := by
  refine ⟨forall₂_concat h.rel (.some ha.represents), fun j k q r id hq hr hqid hrid ↦ ?_⟩
  rw [box_concat] at hq hr
  split_ifs at hq hr with hj hk hk
  · rw [hj, hk]
  · rw [Option.some_inj] at hq
    exact absurd (hq ▸ hqid) (ha.apart k r hr id hrid)
  · rw [Option.some_inj] at hr
    exact absurd (hr ▸ hrid) (ha.apart j q hq id hqid)
  · exact h.apart j k q r id hq hr hqid hrid

/-- The objects that are touched are no box's. -/
theorem of_sameBut {touched : List ℕ} (h : Models s a) (hsame : SameBut touched s.objects objects)
    (htouched : ∀ i p, s.box i = some p → ∀ id ∈ p.owned s.objects, id ∉ touched) :
    Models ⟨objects, s.boxes⟩ a ∧
      ∀ i p, s.box i = some p → p.owned objects = p.owned s.objects := by
  have howned : ∀ i p, s.box i = some p → p.owned objects = p.owned s.objects := by
    intro i p hp
    obtain ⟨c, _, hpc⟩ := h.exists_content hp
    exact (hpc.of_sameBut hsame (htouched i p hp)).2
  refine ⟨⟨forall₂_imp_of_getElem? h.rel fun i e d he hed ↦ ?_, ?_⟩, howned⟩
  · cases hed with
    | none => exact .none
    | @some p c hpc =>
      have hp : s.box i = some p := by rw [box, he]; rfl
      exact .some (hpc.of_sameBut hsame (htouched i p hp)).1
  · intro i j p q id hp hq hpid hqid
    rw [howned i p hp] at hpid
    rw [howned j q hq] at hqid
    exact h.apart i j p q id hp hq hpid hqid

/-- A box is overwritten by an empty one. Its objects are no box's then. -/
theorem detach (h : Models s a) (hp : s.box i = some p) (hvoid : q.jt = .void) :
    Models ⟨s.objects, s.boxes.set i (some q)⟩ (a.set i (some .empty)) ∧
      ∀ j r, box ⟨s.objects, s.boxes.set i (some q)⟩ j = some r → ∀ id ∈ r.owned s.objects,
        s.box j = some r ∧ id ∉ p.owned s.objects := by
  obtain ⟨sbo, jt⟩ := q
  obtain rfl : jt = .void := hvoid
  constructor
  · refine h.set hp (.some (.void sbo)) fun r id hr hrid ↦ ?_
    rw [← Option.some_inj.mp hr, owned_void] at hrid
    exact absurd hrid (by simp)
  · intro j r hr id hrid
    rw [box_set hp] at hr
    split_ifs at hr with hj
    · rw [← Option.some_inj.mp hr, owned_void] at hrid
      exact absurd hrid (by simp)
    · exact ⟨hr, fun hpid ↦ hj (h.apart j i r p id hr hp hrid hpid)⟩

/-- The content of a box is moved to a new one, which is set aside. -/
theorem take (h : Models s a) (hp : s.box i = some p) (hc : a.box i = some c) :
    ∃ p₁ t objects', p.transfer {} s.objects = some (p₁, t, objects') ∧
      Models ⟨objects', s.boxes.set i (some p₁)⟩ (a.set i (some .empty)) ∧
      Aside ⟨objects', s.boxes.set i (some p₁)⟩ t c := by
  obtain ⟨c', hc', hrep⟩ := h.exists_content hp
  obtain rfl : c' = c := Option.some_inj.mp (hc'.symm.trans hc)
  obtain ⟨p₁, t, objects', htransfer, hvoid, ht, hsame, hnew⟩ := hrep.transfer_spec {}
  obtain ⟨hdetached, hothers⟩ := h.detach hp hvoid
  obtain ⟨hmodels, howned⟩ := hdetached.of_sameBut hsame fun j q hq id hqid ↦
    (hothers j q hq id hqid).2
  refine ⟨p₁, t, objects', htransfer, hmodels, ht, fun j q hq id hqid htid ↦ ?_⟩
  rw [howned j q hq] at hqid
  obtain ⟨hold, hne⟩ := hothers j q hq id hqid
  obtain ⟨d, _, hqd⟩ := h.exists_content hold
  rcases hnew id htid with hpid | hge
  · exact hne hpid
  · exact absurd (hqd.lt_of_mem_owned hqid) (by omega)

/-- The content of a temporary is moved to a box. -/
theorem put {t : PropertyValue ι} (h : Models s a) (ht : Aside s t c) (hp : s.box i = some p) :
    ∃ t' p' objects', t.transfer p s.objects = some (t', p', objects') ∧ t'.jt = .void ∧
      Models ⟨objects', s.boxes.set i (some p')⟩ (a.set i (some c)) := by
  obtain ⟨t', p', objects', htransfer, hvoid, hp', hsame, hnew⟩ := ht.represents.transfer_spec p
  obtain ⟨hframe, howned⟩ := h.of_sameBut hsame ht.apart
  refine ⟨t', p', objects', htransfer, hvoid, hframe.set hp (.some hp') ?_⟩
  intro q id hq hqid j r _ hr hrid
  rw [← Option.some_inj.mp hq] at hqid
  rw [howned j r hr] at hrid
  obtain ⟨d, _, hrd⟩ := h.exists_content hr
  rcases hnew id hqid with htid | hge
  · exact ht.apart j r hr id hrid htid
  · exact absurd (hrd.lt_of_mem_owned hrid) (by omega)

/-- The content of a box is destroyed. That of a temporary stays. -/
theorem clear {t : PropertyValue ι} (h : Models s a) (ht : Aside s t c) (hp : s.box i = some p) :
    ∃ sbo objects', p.jt.destroy p.sbo s.objects = some (sbo, objects') ∧
      Models ⟨objects', s.boxes.set i (some ⟨sbo, .void⟩)⟩ (a.set i (some .empty)) ∧
      Aside ⟨objects', s.boxes.set i (some ⟨sbo, .void⟩)⟩ t c := by
  obtain ⟨d, _, hrep⟩ := h.exists_content hp
  obtain ⟨sbo, objects', hdestroy, hsame⟩ := hrep.destroy_spec
  obtain ⟨hdetached, hothers⟩ := h.detach (q := ⟨sbo, .void⟩) hp rfl
  obtain ⟨hmodels, howned⟩ := hdetached.of_sameBut hsame fun j q hq id hqid ↦
    (hothers j q hq id hqid).2
  obtain ⟨ht', htowned⟩ := ht.represents.of_sameBut hsame fun id htid hpid ↦
    ht.apart i p hp id hpid htid
  refine ⟨sbo, objects', hdestroy, hmodels, ht', fun j q hq id hqid ↦ ?_⟩
  rw [howned j q hq] at hqid
  rw [htowned]
  exact ht.apart j q (hothers j q hq id hqid).1 id hqid

end Models

theorem aside_empty (s : Memory types) : Aside s {} .empty :=
  ⟨.void _, fun _ _ _ _ _ ↦ by rw [owned_void]; simp⟩

/-! ## Programs -/

/-- A new object, and a new box for it. -/
theorem Models.construct (h : Models s a) (T : ι) (v : types.Value T) :
    Models ⟨(PropertyValue.construct T v s.objects).2,
        s.boxes ++ [some (PropertyValue.construct T v s.objects).1]⟩
      (a ++ [some (.holding T v)]) := by
  obtain ⟨p, objects, hconstruct, hp, hsame, hnew⟩ := construct_spec T v s.objects
  obtain ⟨hframe, howned⟩ := h.of_sameBut hsame fun _ _ _ _ _ ↦ List.not_mem_nil
  rw [hconstruct]
  refine hframe.concat ⟨hp, fun i q hq id hqid hpid ↦ ?_⟩
  rw [howned i q hq] at hqid
  obtain ⟨c, _, hqc⟩ := h.exists_content hq
  have hlt := hqc.lt_of_mem_owned hqid
  have hge := hnew id hpid
  omega

theorem Models.moveAssign (h : Models s a) (hp : s.box i = some p) (hq : s.box j = some q)
    (hc : a.box j = some c) :
    ∃ s', s.moveAssign i j = some s' ∧
      Models s' (if i = j then a else (a.set j (some .empty)).set i (some c)) := by
  obtain ⟨q₁, tmp, objects₁, htake, hmodels₁, haside₁⟩ := h.take hq hc
  -- the box itself may be the one that was emptied
  obtain ⟨this, hthis⟩ : ∃ this, box ⟨objects₁, s.boxes.set j (some q₁)⟩ i = some this := by
    rw [box_set hq]
    split_ifs
    · exact ⟨q₁, rfl⟩
    · exact ⟨p, hp⟩
  obtain ⟨sbo, objects₂, hdestroy, hmodels₂, haside₂⟩ := hmodels₁.clear haside₁ hthis
  have hcleared : box ⟨objects₂, (s.boxes.set j (some q₁)).set i (some ⟨sbo, .void⟩)⟩ i =
      some ⟨sbo, .void⟩ := by
    rw [box_set hthis objects₂, if_pos rfl]
  obtain ⟨tmp', this', objects₃, hput, hvoid, hmodels₃⟩ := hmodels₂.put haside₂ hcleared
  refine ⟨⟨objects₃, (s.boxes.set j (some q₁)).set i (some this')⟩, ?_, ?_⟩
  · simp only [Memory.moveAssign, hq, htake, hthis, hdestroy, hput, Option.bind_eq_bind,
      Option.bind_some]
    rw [hvoid]
    rfl
  · rw [List.set_set, List.set_set] at hmodels₃
    split_ifs with hij
    · subst hij
      -- what was taken is put back
      obtain ⟨hlt, hget⟩ := List.getElem?_eq_some_iff.mp (Option.join_eq_some_iff.mp hc)
      have hback : (a.set i (some .empty)).set i (some c) = a := by
        rw [List.set_set, ← hget, List.set_getElem_self]
      rwa [hback] at hmodels₃
    · exact hmodels₃

/-- Each statement does to the boxes what it does to their contents, and is undefined if a box that
it names is not alive. -/
theorem step_models (stmt : Statement types) {s : Memory types} {a : Boxes types}
    (h : Models s a) : Option.Rel Models (step stmt s) (Boxes.step stmt a) := by
  cases stmt with
  | default => exact .some (h.concat (aside_empty s))
  | construct T v => exact .some (h.construct T v)
  | moveConstruct other =>
    rw [step, Boxes.step]
    obtain ⟨p, c, hp, hc⟩ | ⟨hp, hc⟩ := h.alive_or_none other
    · obtain ⟨p₁, t, objects', htake, hmodels, haside⟩ := h.take hp hc
      simp only [hp, hc, htake, Option.bind_eq_bind, Option.bind_some]
      exact .some (hmodels.concat haside)
    · rw [hp, hc]
      exact .none
  | moveAssign i j =>
    rw [step, Boxes.step]
    obtain ⟨q, c, hq, hc⟩ | ⟨hq, hc⟩ := h.alive_or_none j
    · obtain ⟨p, d, hp, hd⟩ | ⟨hp, hd⟩ := h.alive_or_none i
      · obtain ⟨s', hassign, hmodels⟩ := h.moveAssign hp hq hc
        simp only [hassign, hc, hd, Option.bind_eq_bind, Option.bind_some]
        exact .some hmodels
      · have hij : i ≠ j := fun heq ↦ by simp [← heq, hp] at hq
        obtain ⟨q₁, t, objects', htake, _⟩ := h.take hq hc
        have hdead : box ⟨objects', s.boxes.set j (some q₁)⟩ i = none := by
          rw [box_set hq, if_neg hij, hp]
        simp only [Memory.moveAssign, hq, hc, htake, hdead, hd, Option.bind_eq_bind,
          Option.bind_some, Option.bind_none]
        exact .none
    · rw [Memory.moveAssign, hq, hc]
      exact .none
  | destroy i =>
    rw [step, Boxes.step]
    obtain ⟨p, c, hp, hc⟩ | ⟨hp, hc⟩ := h.alive_or_none i
    · obtain ⟨sbo, objects', hdestroy, hmodels, _⟩ := h.clear (aside_empty s) hp
      have herased := hmodels.set (box_set hp _ _ i ▸ if_pos rfl) .none fun _ _ he ↦ by simp at he
      rw [List.set_set, List.set_set] at herased
      simp only [hp, hc, hdestroy, Option.bind_eq_bind, Option.bind_some]
      exact .some herased
    · rw [hp, hc]
      exact .none

theorem exists_models_of_step {stmt : Statement types} {s' : Memory types} (h : Models s a)
    (hstep : step stmt s = some s') : ∃ b, Models s' b := by
  have hrel := step_models stmt h
  rw [hstep] at hrel
  generalize Boxes.step stmt a = b at hrel
  cases hrel with
  | some hmodels => exact ⟨_, hmodels⟩

theorem models_nil : Models ({} : Memory types) [] :=
  ⟨.nil, fun i _ p _ _ hp ↦ by simp [box] at hp⟩

theorem run_models (program : List (Statement types)) :
    Option.Rel Models (run program) (Boxes.run program) :=
  Transition.exec_rel (fun stmt _ _ h ↦ step_models stmt h) program models_nil

theorem exists_contents {program : List (Statement types)} (h : run program = some s) :
    ∃ a, Boxes.run program = some a ∧ Models s a := by
  have hrel := run_models program
  rw [h] at hrel
  generalize Boxes.run program = a at hrel ⊢
  cases hrel with
  | some hmodels => exact ⟨_, rfl, hmodels⟩

theorem exists_memory {program : List (Statement types)} (h : Boxes.run program = some a) :
    ∃ s, run program = some s ∧ Models s a := by
  have hrel := run_models program
  rw [h] at hrel
  generalize run program = s at hrel ⊢
  cases hrel with
  | some hmodels => exact ⟨_, rfl, hmodels⟩

/-! ## What is seen of the boxes -/

/-- The boxes show the contents. -/
structure Shows (s : Memory types) (a : Boxes types) : Prop where
  length : s.boxes.length = a.length
  query : ∀ i T, (s.box i).map (query s.objects T) = (a.box i).map fun c ↦ some (c.query T)
  queryVoid : ∀ i, (s.box i).map (queryVoid s.objects) = (a.box i).map Content.isEmpty
  hashValue : ∀ i, (s.box i).map (hashValue s.objects) = (a.box i).map fun c ↦ some c.hashValue
  print : ∀ i, (s.box i).map (print s.objects) = (a.box i).map fun c ↦ some c.print
  equal : ∀ i j p q, s.box i = some p → s.box j = some q →
    ∃ c d, a.box i = some c ∧ a.box j = some d ∧ equal s.objects p q = some (c.equal d)

theorem Models.map_box_eq {β : Type*} (h : Models s a) {f : PropertyValue ι → β}
    {g : Content types → β} (hfg : ∀ p c, Represents s.objects p c → f p = g c) (i : ℕ) :
    (s.box i).map f = (a.box i).map g := by
  have hrel := h.box_rel i
  generalize s.box i = e at hrel ⊢
  generalize a.box i = d at hrel ⊢
  cases hrel with
  | some hpc => exact congrArg some (hfg _ _ hpc)
  | none => rfl

theorem Models.shows (h : Models s a) : Shows s a where
  length := h.rel.length_eq
  query i T := h.map_box_eq (fun _ _ hpc ↦ hpc.query_eq T) i
  queryVoid := h.map_box_eq fun _ _ hpc ↦ hpc.queryVoid_eq
  hashValue := h.map_box_eq fun _ _ hpc ↦ hpc.hashValue_eq
  print := h.map_box_eq fun _ _ hpc ↦ hpc.print_eq
  equal i j p q hp hq := by
    obtain ⟨c, hc, hpc⟩ := h.exists_content hp
    obtain ⟨d, hd, hqd⟩ := h.exists_content hq
    exact ⟨c, d, hc, hd, hpc.equal_eq hqd⟩

/-- `==` is an equivalence on the boxes, and `hash_value` respects it. -/
structure LawfulEquality (s : Memory types) : Prop where
  refl : ∀ i p, s.box i = some p → equal s.objects p p = some true
  symm : ∀ i j p q, s.box i = some p → s.box j = some q → equal s.objects p q = some true →
    equal s.objects q p = some true
  trans : ∀ i j k p q r, s.box i = some p → s.box j = some q → s.box k = some r →
    equal s.objects p q = some true → equal s.objects q r = some true →
      equal s.objects p r = some true
  hash_eq : ∀ i j p q, s.box i = some p → s.box j = some q → equal s.objects p q = some true →
    hashValue s.objects p = hashValue s.objects q

theorem Models.lawfulEquality (h : Models s a) (hlawful : types.Lawful) : LawfulEquality s where
  refl i p hp := by
    obtain ⟨c, _, hpc⟩ := h.exists_content hp
    rw [hpc.equal_eq hpc, c.equal_refl hlawful]
  symm i j p q hp hq hpq := by
    obtain ⟨c, _, hpc⟩ := h.exists_content hp
    obtain ⟨d, _, hqd⟩ := h.exists_content hq
    rw [hpc.equal_eq hqd, Option.some_inj] at hpq
    rw [hqd.equal_eq hpc, Content.equal_symm hlawful hpq]
  trans i j k p q r hp hq hr hpq hqr := by
    obtain ⟨c, _, hpc⟩ := h.exists_content hp
    obtain ⟨d, _, hqd⟩ := h.exists_content hq
    obtain ⟨e, _, hre⟩ := h.exists_content hr
    rw [hpc.equal_eq hqd, Option.some_inj] at hpq
    rw [hqd.equal_eq hre, Option.some_inj] at hqr
    rw [hpc.equal_eq hre, Content.equal_trans hlawful hpq hqr]
  hash_eq i j p q hp hq hpq := by
    obtain ⟨c, _, hpc⟩ := h.exists_content hp
    obtain ⟨d, _, hqd⟩ := h.exists_content hq
    rw [hpc.equal_eq hqd, Option.some_inj] at hpq
    rw [hpc.hashValue_eq, hqd.hashValue_eq, Content.hashValue_eq_of_equal hlawful hpq]

/-- **Typed boxes.** Every program has a result just when the program of typed boxes has one, and
what is seen of each box is its content. A box that is moved to itself stays as it is, and with
lawful types the equality of boxes is lawful. -/
theorem run_typedBoxes (program : List (Statement types)) :
    Option.Rel (fun s a ↦ Shows s a ∧
        (∀ i p, s.box i = some p → ∃ s', step (.moveAssign i i) s = some s' ∧ Shows s' a) ∧
        (types.Lawful → LawfulEquality s))
      (run program) (Boxes.run program) := by
  have hrel := run_models program
  generalize run program = s at hrel ⊢
  generalize Boxes.run program = a at hrel ⊢
  cases hrel with
  | none => exact .none
  | @some s a h =>
    refine .some ⟨h.shows, fun i p hp ↦ ?_, h.lawfulEquality⟩
    obtain ⟨c, hc, _⟩ := h.exists_content hp
    obtain ⟨s', hassign, hmodels⟩ := h.moveAssign hp hp hc
    rw [if_pos rfl] at hmodels
    exact ⟨s', hassign, hmodels.shows⟩

end Memory

end PropertyValue

end Property

end BoostConnector
