import BoostConnector.Property.TypedBox
import Mathlib.Algebra.GroupWithZero.Nat

/-!
# Lifetimes of the objects in property values

Each object that a `property_value` brings to life should be destroyed once. A value on the heap is:
a move hands its address on. The object in the buffer, be it a value or the `unique_ptr` to one, is
moved to a second one in the other buffer, and the table of the first buffer is replaced by the void
table before it could destroy what is left in it. A move construction loses one object in this way,
and a move assignment two, as its content is moved through a temporary (`step_alive`).

Over a run, the objects that are alive are those of the boxes and those that the moves lost
(`run_alive`). So all objects of a type are destroyed in the end just when no box was moved that had
one in its buffer (`run_balanced_iff`).
-/

namespace BoostConnector

namespace Property

open Collections

namespace JumpTable

variable {ι : Type}

/-- The type of the object in the buffer. -/
def inBuffer (types : Types ι) : JumpTable ι → Option ι
  | void => none
  | short T => some T
  | long T => some (types.uniquePtr T)

/-- How many objects of type `T` a box with this table has. -/
def holds [DecidableEq ι] (types : Types ι) (T : ι) : JumpTable ι → ℕ
  | void => 0
  | short U => if U = T then 1 else 0
  | long U => (if types.uniquePtr U = T then 1 else 0) + if U = T then 1 else 0

end JumpTable

namespace PropertyValue

variable {ι : Type} [DecidableEq ι] {types : Types ι} {objects objects' : List (Obj types)}
  {T : ι} {shape : Shape ι} {id : ℕ} {s s' : Memory types} {a : Boxes types}

/-! ## Counting objects -/

/-- The number of objects of type `T` that are alive. -/
def alive (T : ι) (objects : List (Obj types)) : ℕ :=
  objects.countP fun o ↦ o.type = T ∧ o.destroyed = 0

theorem alive_append (more : List (Obj types)) :
    alive T (objects ++ more) = alive T objects + alive T more :=
  List.countP_append

theorem alive_cons (x : shape.Value types) (more : List (Obj types)) :
    alive T (⟨shape, x, 0⟩ :: more) = alive T more + if shape.type types = T then 1 else 0 := by
  simp [alive, List.countP_cons, Obj.type]

theorem alive_nil : alive T ([] : List (Obj types)) = 0 := rfl

theorem moveObject_alive (h : moveObject objects shape id = some objects') :
    alive T objects' = alive T objects + if shape.type types = T then 1 else 0 := by
  obtain ⟨x, hx, rfl⟩ := Option.map_eq_some_iff.mp h
  -- the old object stays alive
  have hset : alive T (objects.set id ⟨shape, shape.movedFrom x, 0⟩) = alive T objects :=
    Nat.add_right_cancel (countP_set_add (read_eq_some_iff.mp hx) _)
  rw [alive_append, alive_cons, alive_nil, hset, Nat.zero_add]

theorem destroyObject_alive (h : destroyObject objects shape id = some objects') :
    alive T objects' + (if shape.type types = T then 1 else 0) = alive T objects := by
  obtain ⟨x, hx, rfl⟩ := Option.map_eq_some_iff.mp h
  have hset := countP_set_add (read_eq_some_iff.mp hx) (⟨shape, x, 1⟩ : Obj types)
    (p := fun o ↦ o.type = T ∧ o.destroyed = 0)
  simpa [alive, Obj.type] using hset

theorem destroyUniquePtr_cases (h : destroyUniquePtr objects id T = some objects') :
    ∃ (p : Option ℕ) (objects₁ : List (Obj types)), read objects (.uniquePtr T) id = some p ∧
      p.elim (some objects) (destroyObject objects (.value T)) = some objects₁ ∧
      destroyObject objects₁ (.uniquePtr T) id = some objects' := by
  obtain ⟨p, hp, h⟩ := Option.bind_eq_some_iff.mp h
  obtain ⟨objects₁, hfirst, h⟩ := Option.bind_eq_some_iff.mp h
  exact ⟨p, objects₁, hp, hfirst, h⟩

/-- All that a move does: it makes a new object if there is one in the buffer. -/
theorem transfer_cases {p p₁ p₂ dest : PropertyValue ι}
    (h : p.transfer dest objects = some (p₁, p₂, objects')) :
    p₁.jt = .void ∧ p₂.jt = p.jt ∧
      ((∃ shape id, p.jt.inBuffer types = some (shape.type types) ∧
          moveObject objects shape id = some objects') ∨
        p.jt.inBuffer types = none ∧ objects' = objects) := by
  obtain ⟨⟨d, source, more⟩, hmove, heq⟩ := Option.bind_eq_some_iff.mp h
  cases heq
  refine ⟨rfl, rfl, ?_⟩
  obtain ⟨sbo, jt⟩ := p
  cases jt with
  | void =>
    cases hmove
    exact .inr ⟨rfl, rfl⟩
  | short T | long T =>
    cases sbo with
    | object id =>
      obtain ⟨more, hobject, hrest⟩ := Option.map_eq_some_iff.mp hmove
      cases hrest
      exact .inl ⟨_, id, rfl, hobject⟩
    | raw => cases hmove

theorem destroy_cases {p : PropertyValue ι} {sbo : Storage}
    (h : p.jt.destroy p.sbo objects = some (sbo, objects')) :
    (p.jt = .void ∧ objects' = objects) ∨
      (∃ T id, p.jt = .short T ∧ destroyObject objects (.value T) id = some objects') ∨
      ∃ T id, p.jt = .long T ∧ p.sbo = .object id ∧
        destroyUniquePtr objects id T = some objects' := by
  obtain ⟨sbo₀, jt⟩ := p
  cases jt with
  | void =>
    cases h
    exact .inl ⟨rfl, rfl⟩
  | short T =>
    cases sbo₀ with
    | object id =>
      obtain ⟨more, hobject, hrest⟩ := Option.map_eq_some_iff.mp h
      cases hrest
      exact .inr (.inl ⟨T, id, rfl, hobject⟩)
    | raw => cases h
  | long T =>
    cases sbo₀ with
    | object id =>
      obtain ⟨more, hobject, hrest⟩ := Option.map_eq_some_iff.mp h
      cases hrest
      exact .inr (.inr ⟨T, id, rfl, rfl, hobject⟩)
    | raw => cases h

theorem transfer_alive {p p₁ p₂ dest : PropertyValue ι}
    (h : p.transfer dest objects = some (p₁, p₂, objects')) :
    alive T objects' = alive T objects + if p.jt.inBuffer types = some T then 1 else 0 := by
  obtain ⟨_, _, ⟨shape, id, hbuffer, hmove⟩ | ⟨hbuffer, rfl⟩⟩ := transfer_cases h
  · rw [moveObject_alive hmove, hbuffer]
    simp
  · simp [hbuffer]

/-- A box that has a content is destroyed with all its objects. -/
theorem Represents.destroy_alive {p : PropertyValue ι} {c : Content types} {sbo : Storage}
    (hp : Represents objects p c) (h : p.jt.destroy p.sbo objects = some (sbo, objects')) :
    alive T objects' + p.jt.holds types T = alive T objects := by
  obtain ⟨hjt, rfl⟩ | ⟨U, id, hjt, hdestroy⟩ | ⟨U, ptr, hjt, hsbo, hdestroy⟩ := destroy_cases h
  · rw [hjt]
    rfl
  · rw [hjt]
    exact destroyObject_alive hdestroy
  · cases hp with
    | void | short => cases hjt
    | @long U' v ptr' id hsize hptr h =>
      cases hjt
      cases hsbo
      obtain ⟨x, objects₁, hread, hfirst, hlast⟩ := destroyUniquePtr_cases hdestroy
      obtain rfl : some id = x := Option.some_inj.mp ((read_eq_some_iff.mpr hptr).symm.trans hread)
      have hvalue : alive T objects₁ + (if U = T then 1 else 0) = alive T objects :=
        destroyObject_alive hfirst
      have hptr : alive T objects' + (if types.uniquePtr U = T then 1 else 0) = alive T objects₁ :=
        destroyObject_alive hlast
      simp only [JumpTable.holds]
      omega

theorem construct_alive (T' : ι) (v : types.Value T') :
    alive T (construct T' v objects).2 =
      alive T objects + (construct T' v objects).1.jt.holds types T := by
  rw [construct]
  split_ifs
  · rw [alive_append, alive_cons, alive_nil, Nat.zero_add]
    rfl
  · rw [alive_append, alive_cons, alive_cons, alive_nil, Nat.zero_add]
    rfl

namespace Memory

/-- The number of objects of type `T` that the boxes have. -/
def held (T : ι) (s : Memory types) : ℕ :=
  (s.boxes.map fun e ↦ e.elim 0 fun p ↦ p.jt.holds types T).sum

/-- The objects of type `T` that a statement loses. -/
def lost (T : ι) : Statement types → Memory types → ℕ
  | .moveConstruct other, s => if ∃ p ∈ s.box other, p.jt.inBuffer types = some T then 1 else 0
  | .moveAssign _ other, s => if ∃ p ∈ s.box other, p.jt.inBuffer types = some T then 2 else 0
  | _, _ => 0

theorem held_set {p : PropertyValue ι} {i : ℕ} (hp : s.box i = some p) (objects : List (Obj types))
    (e : Option (PropertyValue ι)) :
    held T ⟨objects, s.boxes.set i e⟩ + p.jt.holds types T =
      held T s + e.elim 0 fun q ↦ q.jt.holds types T :=
  sum_map_set_add (f := fun e : Option (PropertyValue ι) ↦ e.elim 0 fun p ↦ p.jt.holds types T)
    (Option.join_eq_some_iff.mp hp) e

theorem held_concat (boxes : List (Option (PropertyValue ι))) (p : PropertyValue ι) :
    held T (⟨objects, boxes ++ [some p]⟩ : Memory types) =
      held T (⟨objects, boxes⟩ : Memory types) + p.jt.holds types T := by
  simp [held, List.sum_append]

/-- The steps of an assignment: the content of the source goes to a temporary, that of the target is
destroyed, and the content of the temporary goes to the target. -/
theorem moveAssign_cases {i j : ℕ} (h : s.moveAssign i j = some s') :
    ∃ source source' tmp objects₁ this sbo objects₂ tmp' this' objects₃ sbo' objects₄,
      s.box j = some source ∧ source.transfer {} s.objects = some (source', tmp, objects₁) ∧
      box ⟨objects₁, s.boxes.set j (some source')⟩ i = some this ∧
      this.jt.destroy this.sbo objects₁ = some (sbo, objects₂) ∧
      tmp.transfer ⟨sbo, .void⟩ objects₂ = some (tmp', this', objects₃) ∧
      tmp'.jt.destroy tmp'.sbo objects₃ = some (sbo', objects₄) ∧
      s' = ⟨objects₄, (s.boxes.set j (some source')).set i (some this')⟩ := by
  obtain ⟨source, hsource, h⟩ := Option.bind_eq_some_iff.mp h
  obtain ⟨⟨source', tmp, objects₁⟩, htake, h⟩ := Option.bind_eq_some_iff.mp h
  obtain ⟨this, hthis, h⟩ := Option.bind_eq_some_iff.mp h
  obtain ⟨⟨sbo, objects₂⟩, hdestroy, h⟩ := Option.bind_eq_some_iff.mp h
  obtain ⟨⟨tmp', this', objects₃⟩, hput, h⟩ := Option.bind_eq_some_iff.mp h
  obtain ⟨⟨sbo', objects₄⟩, hlast, h⟩ := Option.bind_eq_some_iff.mp h
  exact ⟨source, source', tmp, objects₁, this, sbo, objects₂, tmp', this', objects₃, sbo', objects₄,
    hsource, htake, hthis, hdestroy, hput, hlast, (Option.some_inj.mp h).symm⟩

theorem moveAssign_alive {i j : ℕ} (h : Models s a) (hassign : s.moveAssign i j = some s') :
    alive T s'.objects + held T s =
      alive T s.objects + held T s' + lost T (.moveAssign i j) s := by
  obtain ⟨source, source', tmp, objects₁, this, sbo, objects₂, tmp', this', objects₃, sbo',
    objects₄, hsource, htake, hthis, hdestroy, hput, hlast, rfl⟩ := moveAssign_cases hassign
  obtain ⟨c, hc, _⟩ := h.exists_content hsource
  -- the target has a content still when it is destroyed
  obtain ⟨_, _, _, htake', hmodels, _⟩ := h.take hsource hc
  cases htake'.symm.trans htake
  obtain ⟨d, _, hcontent⟩ := hmodels.exists_content hthis
  obtain ⟨hsource', htmp, _⟩ := transfer_cases htake
  obtain ⟨htmp', hthis', _⟩ := transfer_cases hput
  obtain rfl : objects₄ = objects₃ := by
    rw [htmp'] at hlast
    cases hlast
    rfl
  have htake := transfer_alive (T := T) htake
  have hdestroy := hcontent.destroy_alive (T := T) hdestroy
  have hput := transfer_alive (T := T) hput
  have hheld₁ := held_set (T := T) hsource objects₁ (some source')
  have hheld₂ := held_set (T := T) hthis objects₄ (some this')
  have hlost : lost T (.moveAssign i j) s =
      if source.jt.inBuffer types = some T then 2 else 0 := by
    simp [lost, hsource]
  have hvoid : (JumpTable.void : JumpTable ι).holds types T = 0 := rfl
  rw [htmp] at hput
  simp only [Option.elim_some, hsource', hthis', htmp, hvoid] at hheld₁ hheld₂
  dsimp only at hdestroy hheld₂ ⊢
  rw [hlost]
  split_ifs at * <;> omega

theorem step_alive {stmt : Statement types} (h : Models s a) (hstep : step stmt s = some s') :
    alive T s'.objects + held T s = alive T s.objects + held T s' + lost T stmt s := by
  cases stmt with
  | default =>
    cases hstep
    rw [held_concat]
    rfl
  | construct T' v =>
    obtain rfl : ⟨(construct T' v s.objects).2, s.boxes ++ [some (construct T' v s.objects).1]⟩ =
      s' := Option.some_inj.mp hstep
    have hboxes : held T (⟨(construct T' v s.objects).2, s.boxes⟩ : Memory types) = held T s := rfl
    rw [held_concat, construct_alive, hboxes]
    simp only [lost]
    omega
  | moveConstruct other =>
    obtain ⟨source, hsource, hstep⟩ := Option.bind_eq_some_iff.mp hstep
    obtain ⟨⟨source', this, objects⟩, htake, hstep⟩ := Option.bind_eq_some_iff.mp hstep
    cases hstep
    obtain ⟨hsource', hthis, _⟩ := transfer_cases htake
    have htake := transfer_alive (T := T) htake
    have hheld := held_set (T := T) hsource objects (some source')
    have hlost : lost T (.moveConstruct other) s =
        if source.jt.inBuffer types = some T then 1 else 0 := by
      simp [lost, hsource]
    have hvoid : (JumpTable.void : JumpTable ι).holds types T = 0 := rfl
    simp only [Option.elim_some, hsource', hvoid] at hheld
    rw [held_concat, htake, hlost, hthis]
    omega
  | moveAssign i j => exact moveAssign_alive h hstep
  | destroy i =>
    obtain ⟨this, hthis, hstep⟩ := Option.bind_eq_some_iff.mp hstep
    obtain ⟨⟨sbo, objects⟩, hdestroy, hstep⟩ := Option.bind_eq_some_iff.mp hstep
    cases hstep
    obtain ⟨c, _, hcontent⟩ := h.exists_content hthis
    have hdestroy := hcontent.destroy_alive (T := T) hdestroy
    have hheld := held_set (T := T) hthis objects none
    simp only [lost, Option.elim_none] at hheld ⊢
    omega

/-- The account of the objects of a type. -/
theorem run_alive {program : List (Statement types)} (h : run program = some s) :
    alive T s.objects = held T s + Transition.total step (lost T) program {} := by
  -- nothing is alive in the beginning, and no box is there
  have htotal : alive T s.objects + 0 =
      0 + held T s + Transition.total step (lost T) program {} :=
    Transition.exec_total (fun s : Memory types ↦ ∃ a, Models s a) (fun s ↦ alive T s.objects)
      (held T) (lost T) (fun ⟨_, hs⟩ hstep ↦ exists_models_of_step hs hstep)
      (fun ⟨_, hs⟩ hstep ↦ step_alive hs hstep) ⟨[], models_nil⟩ h
  rwa [Nat.add_zero, Nat.zero_add] at htotal

/-! ## Births and deaths -/

/-- The number of objects of type `T` that were brought to life. -/
def births (T : ι) (s : Memory types) : ℕ := s.objects.countP fun o ↦ o.type = T

/-- The number of destructions of objects of type `T`. -/
def deaths (T : ι) (s : Memory types) : ℕ :=
  ((s.objects.filter fun o ↦ o.type = T).map Obj.destroyed).sum

/-- As many objects of type `T` were destroyed as were brought to life, each of them once. -/
def Balanced (T : ι) (s : Memory types) : Prop :=
  births T s = deaths T s ∧ ∀ o ∈ s.objects, o.type = T → o.destroyed = 1

/-- No object was destroyed twice. -/
def AtMostOnce (objects : List (Obj types)) : Prop := ∀ o ∈ objects, o.destroyed ≤ 1

theorem balanced_iff_alive (h : AtMostOnce s.objects) : Balanced T s ↔ alive T s.objects = 0 := by
  rw [alive, List.countP_eq_zero]
  constructor
  · intro hbalanced o ho hdead
    obtain ⟨htype, hzero⟩ := of_decide_eq_true hdead
    exact absurd (hbalanced.2 o ho htype) (by omega)
  · intro hdead
    have honce : ∀ o ∈ s.objects, o.type = T → o.destroyed = 1 := by
      intro o ho htype
      have hne : o.destroyed ≠ 0 := fun hzero ↦ hdead o ho (decide_eq_true ⟨htype, hzero⟩)
      have hle := h o ho
      omega
    refine ⟨?_, honce⟩
    have hones : (s.objects.filter fun o ↦ o.type = T).map Obj.destroyed =
        (s.objects.filter fun o ↦ o.type = T).map fun _ ↦ 1 := by
      refine List.map_congr_left fun o ho ↦ ?_
      rw [List.mem_filter, decide_eq_true_eq] at ho
      exact honce o ho.1 ho.2
    rw [births, deaths, hones, List.countP_eq_length_filter]
    simp

omit [DecidableEq ι] in
theorem AtMostOnce.append {more : List (Obj types)} (h : AtMostOnce objects)
    (hmore : AtMostOnce more) : AtMostOnce (objects ++ more) :=
  fun o ho ↦ (List.mem_append.mp ho).elim (h o) (hmore o)

omit [DecidableEq ι] in
theorem AtMostOnce.set {o : Obj types} (h : AtMostOnce objects) (ho : o.destroyed ≤ 1) (id : ℕ) :
    AtMostOnce (objects.set id o) := by
  intro o' ho'
  obtain hmem | rfl := List.mem_or_eq_of_mem_set ho'
  · exact h o' hmem
  · exact ho

theorem AtMostOnce.destroyObject (honce : AtMostOnce objects)
    (h : destroyObject objects shape id = some objects') : AtMostOnce objects' := by
  obtain ⟨x, _, rfl⟩ := Option.map_eq_some_iff.mp h
  exact honce.set le_rfl id

theorem AtMostOnce.destroyUniquePtr (honce : AtMostOnce objects)
    (h : destroyUniquePtr objects id T = some objects') : AtMostOnce objects' := by
  obtain ⟨p, objects₁, _, hfirst, hlast⟩ := destroyUniquePtr_cases h
  cases p with
  | none =>
    cases hfirst
    exact honce.destroyObject hlast
  | some id' => exact (honce.destroyObject hfirst).destroyObject hlast

theorem AtMostOnce.transfer {p p₁ p₂ dest : PropertyValue ι} (honce : AtMostOnce objects)
    (h : p.transfer dest objects = some (p₁, p₂, objects')) : AtMostOnce objects' := by
  obtain ⟨_, _, ⟨shape, id, _, hmove⟩ | ⟨_, rfl⟩⟩ := transfer_cases h
  · obtain ⟨x, _, rfl⟩ := Option.map_eq_some_iff.mp hmove
    exact (honce.set (Nat.zero_le 1) id).append (by simp [AtMostOnce])
  · exact honce

theorem AtMostOnce.destroy {p : PropertyValue ι} {sbo : Storage} (honce : AtMostOnce objects)
    (h : p.jt.destroy p.sbo objects = some (sbo, objects')) : AtMostOnce objects' := by
  obtain ⟨_, rfl⟩ | ⟨T, id, _, hdestroy⟩ | ⟨T, id, _, _, hdestroy⟩ := destroy_cases h
  · exact honce
  · exact honce.destroyObject hdestroy
  · exact honce.destroyUniquePtr hdestroy

omit [DecidableEq ι] in
theorem AtMostOnce.construct (honce : AtMostOnce objects) (T : ι) (v : types.Value T) :
    AtMostOnce (construct T v objects).2 := by
  rw [PropertyValue.construct]
  split_ifs <;> exact honce.append (by simp [AtMostOnce])

theorem step_atMostOnce {stmt : Statement types} (honce : AtMostOnce s.objects)
    (h : step stmt s = some s') : AtMostOnce s'.objects := by
  cases stmt with
  | default =>
    cases h
    exact honce
  | construct T v =>
    cases h
    exact honce.construct T v
  | moveConstruct other =>
    obtain ⟨source, _, h⟩ := Option.bind_eq_some_iff.mp h
    obtain ⟨⟨source', this, objects⟩, htake, h⟩ := Option.bind_eq_some_iff.mp h
    cases h
    exact honce.transfer htake
  | moveAssign i j =>
    obtain ⟨_, _, _, _, _, _, _, _, _, _, _, _, _, htake, _, hdestroy, hput, hlast, rfl⟩ :=
      moveAssign_cases h
    exact (((honce.transfer htake).destroy hdestroy).transfer hput).destroy hlast
  | destroy i =>
    obtain ⟨this, _, h⟩ := Option.bind_eq_some_iff.mp h
    obtain ⟨⟨sbo, objects⟩, hdestroy, h⟩ := Option.bind_eq_some_iff.mp h
    cases h
    exact honce.destroy hdestroy

theorem run_atMostOnce {program : List (Statement types)} (h : run program = some s) :
    AtMostOnce s.objects := by
  have hstart : AtMostOnce ([] : List (Obj types)) := List.forall_mem_nil _
  exact Transition.exec_invariant (fun s : Memory types ↦ AtMostOnce s.objects)
    (fun honce hstep ↦ step_atMostOnce honce hstep) hstart h

/-- The statement moves from no box that has an object of type `T` in its buffer. -/
def MovesNoInline (T : ι) : Statement types → Memory types → Prop
  | .moveConstruct other, s | .moveAssign _ other, s =>
    ∀ p ∈ s.box other, p.jt.inBuffer types ≠ some T
  | _, _ => True

instance MovesNoInline.decidable :
    ∀ (stmt : Statement types) (s : Memory types), Decidable (MovesNoInline T stmt s)
  | .moveConstruct other, s | .moveAssign _ other, s =>
    inferInstanceAs (Decidable (∀ p ∈ s.box other, p.jt.inBuffer types ≠ some T))
  | .default, _ | .construct _ _, _ | .destroy _, _ => inferInstanceAs (Decidable True)

theorem lost_eq_zero_iff (stmt : Statement types) (s : Memory types) :
    lost T stmt s = 0 ↔ MovesNoInline T stmt s := by
  cases stmt with
  | moveConstruct other | moveAssign i other =>
    rw [lost, MovesNoInline]
    split_ifs with hinline
    · simpa using hinline
    · simpa using hinline
  | default | construct | destroy => exact iff_of_true rfl trivial

theorem held_eq_zero {a : Boxes types} (h : Models s a) (hend : ∀ e ∈ a, e = none) :
    held T s = 0 := by
  rw [held, List.sum_eq_zero_iff_forall_eq_nat]
  intro n hn
  obtain ⟨e, he, rfl⟩ := List.mem_map.mp hn
  obtain ⟨d, hd, hrel⟩ := exists_of_forall₂ h.rel he
  rw [hend d hd] at hrel
  cases hrel
  rfl

theorem balanced_iff_along {program : List (Statement types)} (h : run program = some s)
    (hend : held T s = 0) :
    Balanced T s ↔ Transition.Along step (MovesNoInline T) program {} := by
  have halong : Transition.total step (lost T) program {} = 0 ↔ _ :=
    Transition.total_eq_zero_iff_along program _
  simp only [lost_eq_zero_iff] at halong
  rw [balanced_iff_alive (run_atMostOnce h), run_alive h, hend, Nat.zero_add]
  exact halong

/-- **Lifetimes.** A program that destroys all its boxes has destroyed the objects of a type, each
of them once, just when it never moved from a box with such an object in its buffer: a value of the
type, or the `unique_ptr` to a value on the heap. -/
theorem run_balanced_iff {program : List (Statement types)} {a : Boxes types}
    (h : Boxes.run program = some a) (hend : ∀ e ∈ a, e = none) (T : ι) :
    ∃ s, run program = some s ∧
      (Balanced T s ↔ Transition.Along step (MovesNoInline T) program {}) := by
  obtain ⟨s, hrun, hmodels⟩ := exists_memory h
  exact ⟨s, hrun, balanced_iff_along hrun (held_eq_zero hmodels hend)⟩

/-- Strings, blocks of 1024 bytes, which do not fit into the buffer, and pointers to values. -/
inductive TextType where
  | string
  | block
  | uniquePtr (T : TextType)
  deriving DecidableEq

namespace TextType

/-- A pointer that the program gives is told by its address. -/
def Value : TextType → Type
  | string | block => Bytes
  | uniquePtr _ => Option ℕ

def size : TextType → ℕ
  | string => 32
  | block => 1024
  | uniquePtr _ => 8

def equalTo : (T : TextType) → T.Value → T.Value → Bool
  | string | block => fun (x y : Bytes) ↦ x = y
  | uniquePtr _ => fun (x y : Option ℕ) ↦ x = y

def hash : (T : TextType) → T.Value → UInt64
  | string | block => fun (x : Bytes) ↦ x.foldl (fun h b ↦ h * 31 + b.toUInt64) 0
  | uniquePtr _ => fun (x : Option ℕ) ↦ x.elim 0 UInt64.ofNat

def print : (T : TextType) → T.Value → Bytes
  | string | block => fun (x : Bytes) ↦ x
  | uniquePtr _ => fun (x : Option ℕ) ↦ ascii (toString (x.getD 0))

def movedFrom : (T : TextType) → T.Value → T.Value
  | string => fun (_ : Bytes) ↦ ([] : Bytes)
  | block => fun x ↦ x
  | uniquePtr _ => fun (_ : Option ℕ) ↦ (none : Option ℕ)

end TextType

def textTypes : Types TextType where
  Value := TextType.Value
  size := TextType.size
  stringSize := 32
  equalTo := TextType.equalTo
  hash := TextType.hash
  print := TextType.print
  movedFrom := TextType.movedFrom
  uniquePtr := TextType.uniquePtr
  uniquePtr_le T := by
    rw [TextType.size]
    decide

/-- A block may be moved about. -/
theorem run_balanced_iff_block : ∃ s : Memory textTypes,
    run [.construct .block (ascii "foo"), .default, .moveAssign 1 0, .moveAssign 1 1, .destroy 0,
      .destroy 1] = some s ∧ Balanced .block s := by
  have h : Boxes.run ([.construct .block (ascii "foo"), .default, .moveAssign 1 0, .moveAssign 1 1,
    .destroy 0, .destroy 1] : List (Statement textTypes)) = some [none, none] := rfl
  obtain ⟨s, hs, hiff⟩ := run_balanced_iff h (by simp) .block
  exact ⟨s, hs, hiff.mpr (by decide)⟩

/-- A string is moved to a second one, and only that is destroyed. So is the pointer to a block. -/
theorem moved_string_stays :
    (∃ s : Memory textTypes,
      run [.construct .string (ascii "foo"), .moveConstruct 0, .destroy 0, .destroy 1] = some s ∧
        (∀ e ∈ s.boxes, e = none) ∧ births .string s = 2 ∧ deaths .string s = 1) ∧
    ∃ s : Memory textTypes,
      run [.construct .block (ascii "foo"), .moveConstruct 0, .destroy 0, .destroy 1] = some s ∧
        (∀ e ∈ s.boxes, e = none) ∧ births (.uniquePtr .block) s = 2 ∧
          deaths (.uniquePtr .block) s = 1 :=
  ⟨⟨_, rfl, by decide, by decide, by decide⟩, ⟨_, rfl, by decide, by decide, by decide⟩⟩

/-- A value that does not fit into the buffer is destroyed once, however it is moved. -/
theorem run_balanced_of_large {program : List (Statement types)} {a : Boxes types}
    (h : Boxes.run program = some a) (hend : ∀ e ∈ a, e = none)
    (hsize : types.stringSize < types.size T) : ∃ s, run program = some s ∧ Balanced T s := by
  obtain ⟨s, hrun, hmodels⟩ := exists_memory h
  refine ⟨s, hrun, (balanced_iff_along hrun (held_eq_zero hmodels hend)).mpr ?_⟩
  refine Transition.along_of_forall fun before stmt after t _ hbefore ↦ ?_
  obtain ⟨b, _, ht⟩ := exists_contents hbefore
  -- neither a value of the type nor a pointer is that large
  have hlong : ∀ i, ∀ p ∈ t.box i, p.jt.inBuffer types ≠ some T := by
    intro i p hp hbuffer
    obtain ⟨c, _, hpc⟩ := ht.exists_content hp
    cases hpc with
    | void => cases hbuffer
    | short hfits =>
      cases hbuffer
      omega
    | @long U =>
      have hfits := types.uniquePtr_le U
      cases hbuffer
      omega
  cases stmt with
  | moveConstruct other | moveAssign i other => exact hlong other
  | default | construct | destroy => trivial

end Memory

end PropertyValue

end Property

end BoostConnector
