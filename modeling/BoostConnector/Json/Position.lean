import BoostConnector.Json.Subscript
import Mathlib.Data.List.Induction

/-!
# Positions in a document

A path leads to a position, the names of members and the indexes of elements on the way. To be an
index of used elements, a set of canonical paths should have one path for each position. Names have
one spelling, but an index of an array has many, and `dissect_path` and `to_path` keep the spelling
they are given.

Two canonical paths lead to different positions exactly when they are no respellings of each other
(`positions_differ_iff`); paths whose subscripts are plain numerals never are.
-/

namespace BoostConnector

namespace Json

inductive Step
  | member (name : Bytes)
  | element (index : ℕ)
  deriving DecidableEq, Repr

/-! ## Positions -/

def Value.child : Value → Step → Option Value
  | .object o, .member name => ifContains o name
  | .array a, .element index => a[index]?
  | _, _ => none

/-- The value at a position. -/
def Value.at : Value → List Step → Option Value
  | v, [] => some v
  | v, step :: steps => (v.child step).bind fun w ↦ w.at steps

/-- The step that `subvalue` takes. -/
def stepAt (v : Value) (name : Bytes) : Option Step :=
  match v with
  | .object _ => some (.member name)
  | .array _ =>
    match assertUnsignedInteger (cStr name) with
    | .ok index => some (.element index)
    | .error _ => none
  | _ => none

/-- The steps that `find_path` takes. -/
def position : Value → List Bytes → Option (List Step)
  | _, [] => some []
  | v, first :: rest =>
    (stepAt v first).bind fun step ↦
      (v.child step).bind fun w ↦ (position w rest).map (step :: ·)

theorem subvalue_eq_ok_iff {v w : Value} {name : Bytes} :
    subvalue v name = .ok w ↔ ∃ step, stepAt v name = some step ∧ v.child step = some w := by
  cases v with
  | object o =>
    rw [subvalue, atName, stepAt]
    cases h : ifContains o name with
    | none => simp [Value.child, h]
    | some u => simp [Value.child, h]
  | array a =>
    rw [subvalue, stepAt]
    cases hindex : assertUnsignedInteger (cStr name) with
    | error e => simp [Except.bind]
    | ok index =>
      cases hat : a[index]? with
      | none => simp [Except.bind, atIndex, Value.child, hat]
      | some u => simp [Except.bind, atIndex, Value.child, hat]
  | _ => simp [subvalue, stepAt]

/-- **A path reaches what is at its position.** -/
theorem findPathFrom_eq_ok_iff {v w : Value} {original path : List Bytes} :
    findPathFrom original v path = .ok w ↔
      ∃ steps, position v path = some steps ∧ v.at steps = some w := by
  induction path generalizing original v with
  | nil => simp [findPathFrom, position, Value.at]
  | cons first rest ih =>
    rw [findPathFrom, position]
    cases hsub : subvalue v first with
    | error e =>
      refine iff_of_false (by simp) ?_
      rintro ⟨steps, hsteps, -⟩
      obtain ⟨step, hstep, hsteps⟩ := Option.bind_eq_some_iff.mp hsteps
      obtain ⟨u, hchild, -⟩ := Option.bind_eq_some_iff.mp hsteps
      rw [subvalue_eq_ok_iff.mpr ⟨step, hstep, hchild⟩] at hsub
      exact absurd hsub (by simp)
    | ok u =>
      obtain ⟨step, hstep, hchild⟩ := subvalue_eq_ok_iff.mp hsub
      simp [hstep, hchild, ih, Value.at]

theorem exists_position {v : Value} {path : Bytes} (h : Resolves v path) :
    ∃ steps, position v (dissectPath path) = some steps := by
  obtain ⟨w, hw⟩ := h
  obtain ⟨steps, hsteps, -⟩ := findPathFrom_eq_ok_iff.mp hw
  exact ⟨steps, hsteps⟩

theorem position_cons_cases {v : Value} {first : Bytes} {rest : List Bytes} {steps : List Step}
    (h : position v (first :: rest) = some steps) :
    ∃ step w steps', stepAt v first = some step ∧ v.child step = some w ∧
      position w rest = some steps' ∧ steps = step :: steps' := by
  rw [position] at h
  obtain ⟨step, hstep, h⟩ := Option.bind_eq_some_iff.mp h
  obtain ⟨w, hchild, h⟩ := Option.bind_eq_some_iff.mp h
  obtain ⟨steps', hrest, rfl⟩ := Option.map_eq_some_iff.mp h
  exact ⟨step, w, steps', hstep, hchild, hrest, rfl⟩

/-! ## Paths one after the other -/

theorem Value.at_append (v : Value) (steps steps' : List Step) :
    v.at (steps ++ steps') = (v.at steps).bind fun u ↦ u.at steps' := by
  induction steps generalizing v with
  | nil => rfl
  | cons step steps ih =>
    rw [List.cons_append, Value.at, Value.at, Option.bind_assoc]
    exact Option.bind_congr fun u _ ↦ ih u

/-- The position of a longer path is counted on from where its first part leads. -/
theorem position_append {v u : Value} {path : List Bytes} {steps : List Step}
    (h : position v path = some steps) (hu : v.at steps = some u) (path' : List Bytes) :
    position v (path ++ path') = (position u path').map (steps ++ ·) := by
  induction path generalizing v steps with
  | nil =>
    obtain rfl : [] = steps := Option.some_inj.mp h
    obtain rfl : v = u := Option.some_inj.mp hu
    simp
  | cons first rest ih =>
    obtain ⟨step, w, tail, hstep, hchild, htail, rfl⟩ := position_cons_cases h
    have hat : w.at tail = some u := by simpa [Value.at, hchild] using hu
    rw [List.cons_append, position, hstep, Option.bind_some, hchild, Option.bind_some,
      ih htail hat, Option.map_map]
    rfl

/-- The descent goes on from where the first part of the path leads. -/
theorem findPathFrom_append {v w : Value} {original path path' : List Bytes} :
    findPathFrom original v (path ++ path') = .ok w ↔
      ∃ u, findPathFrom original v path = .ok u ∧ findPathFrom [] u path' = .ok w := by
  induction path generalizing original v with
  | nil => simp [findPathFrom, findPathFrom_eq_ok_iff]
  | cons first rest ih =>
    rw [List.cons_append, findPathFrom, findPathFrom]
    cases subvalue v first with
    | error e => simp
    | ok u => exact ih

theorem findPath_append_slash_eq_ok_iff {v w : Value} {p q : Bytes} :
    findPath v (p ++ 47 :: q) = .ok w ↔ ∃ u, findPath v p = .ok u ∧ findPath u q = .ok w := by
  rw [findPath, dissectPath_append_slash]
  exact findPathFrom_append

/-- **Lookup composes.** A path with a slash in it leads to the node, known by its position, that
the part after the slash leads to from the node of the part before, and fails just if one of the two
descents does. -/
theorem findPath_append_slash (v : Value) (p q : Bytes) :
    ((∃ e, findPath v (p ++ 47 :: q) = .error e) ↔
        (∃ e, findPath v p = .error e) ∨
          ∃ u, findPath v p = .ok u ∧ ∃ e, findPath u q = .error e) ∧
      ∀ u w, findPath v p = .ok u → findPath u q = .ok w →
        findPath v (p ++ 47 :: q) = .ok w ∧
          ∃ steps steps', position v (dissectPath p) = some steps ∧ v.at steps = some u ∧
            position u (dissectPath q) = some steps' ∧ u.at steps' = some w ∧
            position v (dissectPath (p ++ 47 :: q)) = some (steps ++ steps') ∧
            v.at (steps ++ steps') = some w := by
  constructor
  · cases hp : findPath v p with
    | error e =>
      refine iff_of_true ?_ (.inl ⟨e, rfl⟩)
      cases hpq : findPath v (p ++ 47 :: q) with
      | error e' => exact ⟨e', rfl⟩
      | ok w =>
        obtain ⟨u, hu, -⟩ := findPath_append_slash_eq_ok_iff.mp hpq
        rw [hp] at hu
        contradiction
    | ok u =>
      cases hq : findPath u q with
      | error e =>
        refine iff_of_true ?_ (.inr ⟨u, rfl, e, hq⟩)
        cases hpq : findPath v (p ++ 47 :: q) with
        | error e' => exact ⟨e', rfl⟩
        | ok w =>
          obtain ⟨u', hu', hw⟩ := findPath_append_slash_eq_ok_iff.mp hpq
          obtain rfl := Except.ok.inj (hp.symm.trans hu')
          rw [hq] at hw
          contradiction
      | ok w =>
        rw [findPath_append_slash_eq_ok_iff.mpr ⟨u, hp, hq⟩]
        simp [hq]
  · intro u w hu hw
    obtain ⟨steps, hsteps, hat⟩ := findPathFrom_eq_ok_iff.mp hu
    obtain ⟨steps', hsteps', hat'⟩ := findPathFrom_eq_ok_iff.mp hw
    refine ⟨findPath_append_slash_eq_ok_iff.mpr ⟨u, hu, hw⟩, steps, steps', hsteps, hat, hsteps',
      hat', ?_, ?_⟩
    · rw [dissectPath_append_slash, position_append hsteps hat, hsteps']
      rfl
    · rw [Value.at_append, hat]
      exact hat'

/-! ## Respellings -/

/-- The segments take one step of `v`: they are the same, or spell one index of an array. -/
def SameStep (v : Value) (name name' : Bytes) : Prop :=
  name = name' ∨ (∃ a, v = .array a) ∧ ∃ n, Spells (cStr name) n ∧ Spells (cStr name') n

/-- The paths are the same but for the spelling of the array subscripts on the way. -/
def Respelt : Value → List Bytes → List Bytes → Prop
  | _, [], [] => True
  | v, first :: rest, first' :: rest' =>
    SameStep v first first' ∧ ∀ w, subvalue v first = .ok w → Respelt w rest rest'
  | _, _, _ => False

theorem sameStep_iff {v : Value} {name name' : Bytes} {step step' : Step}
    (h : stepAt v name = some step) (h' : stepAt v name' = some step') :
    step = step' ↔ SameStep v name name' := by
  cases v with
  | object o =>
    rw [stepAt, Option.some_inj] at h h'
    subst h h'
    simp [SameStep]
  | array a =>
    cases hindex : assertUnsignedInteger (cStr name) with
    | error e => simp [stepAt, hindex] at h
    | ok m =>
      cases hindex' : assertUnsignedInteger (cStr name') with
      | error e => simp [stepAt, hindex'] at h'
      | ok n =>
        simp only [stepAt, hindex, hindex', Option.some_inj] at h h'
        subst h h'
        have hm := assertUnsignedInteger_eq_ok_iff.mp hindex
        have hn := assertUnsignedInteger_eq_ok_iff.mp hindex'
        constructor
        · intro heq
          obtain rfl := Step.element.inj heq
          exact .inr ⟨⟨a, rfl⟩, m, hm, hn⟩
        · rintro (rfl | ⟨-, k, hk, hk'⟩)
          · rw [hm.unique hn]
          · rw [hm.unique hk, hn.unique hk']
  | _ => simp [stepAt] at h

/-- **Positions are equal just for respellings.** -/
theorem position_eq_iff {v : Value} {path path' : List Bytes} {steps steps' : List Step}
    (h : position v path = some steps) (h' : position v path' = some steps') :
    steps = steps' ↔ Respelt v path path' := by
  induction path generalizing v path' steps steps' with
  | nil =>
    rw [position, Option.some_inj] at h
    cases path' with
    | nil =>
      rw [position, Option.some_inj] at h'
      exact iff_of_true (h.symm.trans h') trivial
    | cons first' rest' =>
      obtain ⟨step', -, -, -, -, -, rfl⟩ := position_cons_cases h'
      refine iff_of_false ?_ (by simp [Respelt])
      simp [← h]
  | cons first rest ih =>
    obtain ⟨step, w, tail, hstep, hchild, htail, rfl⟩ := position_cons_cases h
    cases path' with
    | nil =>
      rw [position, Option.some_inj] at h'
      refine iff_of_false ?_ (by simp [Respelt])
      simp [← h']
    | cons first' rest' =>
      obtain ⟨step', w', tail', hstep', hchild', htail', rfl⟩ := position_cons_cases h'
      rw [Respelt, List.cons.injEq, ← sameStep_iff hstep hstep']
      refine and_congr_right fun heq ↦ ?_
      subst heq
      obtain rfl := Option.some_inj.mp (hchild.symm.trans hchild')
      rw [ih htail htail']
      have hsub : subvalue v first = .ok w := subvalue_eq_ok_iff.mpr ⟨step, hstep, hchild⟩
      constructor
      · intro hrest u hu
        exact Except.ok.inj (hsub.symm.trans hu) ▸ hrest
      · exact fun hrest ↦ hrest w hsub

/-! ## Plain numerals -/

/-- A numeral of 64 bits without a leading zero. -/
def Plain (s : Bytes) : Prop :=
  Numeral s ∧ (s.head? = some 48 → s = [48]) ∧ decimal s < UInt64.size

theorem decimal_concat (s : Bytes) (c : UInt8) :
    decimal (s ++ [c]) = 10 * decimal s + (c.toNat - 48) := by
  rw [decimal, List.foldl_append]
  rfl

/-- The value of a digit. -/
theorem digit_cases {c : UInt8} (h : isDigit c = true) :
    48 ≤ c.toNat ∧ c.toNat ≤ 57 := by
  simpa [isDigit, UInt8.le_iff_toNat_le] using h

theorem decimal_pos {s : Bytes} (hne : s ≠ []) (hdigit : ∀ c ∈ s, isDigit c = true)
    (hhead : s.head? ≠ some 48) : 0 < decimal s := by
  induction s using List.reverseRecOn with
  | nil => exact absurd rfl hne
  | append_singleton s c ih =>
    obtain ⟨hlo, -⟩ := digit_cases (hdigit c (by simp))
    rw [decimal_concat]
    by_cases hs : s = []
    · subst hs
      have hc : c.toNat ≠ 48 := fun heq ↦ hhead (by simpa [← UInt8.toNat_inj] using heq)
      omega
    · rw [List.head?_append_of_ne_nil _ hs] at hhead
      have hpos := ih hs (fun d hd ↦ hdigit d (List.mem_append_left _ hd)) hhead
      omega

/-- Digits without a leading zero are determined by their value. -/
theorem eq_of_decimal_eq {s t : Bytes} (hs : ∀ c ∈ s, isDigit c = true)
    (ht : ∀ c ∈ t, isDigit c = true) (hs0 : s.head? ≠ some 48) (ht0 : t.head? ≠ some 48)
    (h : decimal s = decimal t) : s = t := by
  induction s using List.reverseRecOn generalizing t with
  | nil =>
    by_contra hne
    exact (decimal_pos (Ne.symm hne) ht ht0).ne h
  | append_singleton s c ih =>
    have hpos := decimal_pos (by simp) hs hs0
    cases t using List.reverseRecOn with
    | nil => exact absurd h hpos.ne'
    | append_singleton t d =>
      obtain ⟨hclo, hchi⟩ := digit_cases (hs c (by simp))
      obtain ⟨hdlo, hdhi⟩ := digit_cases (ht d (by simp))
      rw [decimal_concat, decimal_concat] at h
      have hlast : c = d := by
        rw [← UInt8.toNat_inj]
        omega
      have hinit : s = t := by
        apply ih (fun x hx ↦ hs x (List.mem_append_left _ hx))
          (fun x hx ↦ ht x (List.mem_append_left _ hx))
        · exact fun heq ↦ hs0 (by simp [heq])
        · exact fun heq ↦ ht0 (by simp [heq])
        · omega
      rw [hinit, hlast]

theorem Plain.spells {s : Bytes} (h : Plain s) : Spells (cStr s) (decimal s) := by
  have hspells := h.1.spells
  rwa [signedValue, if_neg (not_le.mpr h.2.2), if_neg (by simp)] at hspells

/-- A number has one plain spelling. -/
theorem Plain.unique {s t : Bytes} {n : ℕ} (hs : Plain s) (ht : Plain t) (hsn : Spells (cStr s) n)
    (htn : Spells (cStr t) n) : s = t := by
  have h : decimal s = decimal t := by
    rw [hs.spells.unique hsn, ht.spells.unique htn]
  by_cases hs0 : s.head? = some 48
  · by_cases ht0 : t.head? = some 48
    · rw [hs.2.1 hs0, ht.2.1 ht0]
    · have hpos := decimal_pos ht.1.1 ht.1.2 ht0
      rw [← h, hs.2.1 hs0] at hpos
      exact absurd hpos (by decide)
  · by_cases ht0 : t.head? = some 48
    · have hpos := decimal_pos hs.1.1 hs.1.2 hs0
      rw [h, ht.2.1 ht0] at hpos
      exact absurd hpos (by decide)
    · exact eq_of_decimal_eq hs.1.2 ht.1.2 hs0 ht0 h

/-- Every subscript on the way is a plain numeral. -/
def PlainAlong : Value → List Bytes → Prop
  | _, [] => True
  | v, first :: rest =>
    ((∃ a, v = .array a) → Plain first) ∧ ∀ w, subvalue v first = .ok w → PlainAlong w rest

theorem eq_of_respelt {v : Value} {path path' : List Bytes} {steps : List Step}
    (hpath : position v path = some steps) (h : PlainAlong v path) (h' : PlainAlong v path')
    (hrespelt : Respelt v path path') : path = path' := by
  induction path generalizing v path' steps with
  | nil =>
    cases path' with
    | nil => rfl
    | cons first' rest' => exact absurd hrespelt (by simp [Respelt])
  | cons first rest ih =>
    cases path' with
    | nil => exact absurd hrespelt (by simp [Respelt])
    | cons first' rest' =>
      obtain ⟨step, w, tail, hstep, hchild, htail, -⟩ := position_cons_cases hpath
      have hsub : subvalue v first = .ok w := subvalue_eq_ok_iff.mpr ⟨step, hstep, hchild⟩
      obtain ⟨hsame, hrest⟩ := hrespelt
      have hfirst : first = first' := by
        rcases hsame with heq | ⟨harray, n, hn, hn'⟩
        · exact heq
        · exact (h.1 harray).unique (h'.1 harray) hn hn'
      subst hfirst
      rw [ih htail (h.2 w hsub) (h'.2 w hsub) (hrest w hsub)]

/-! ## Canonical paths -/

/-- **Distinct canonical paths lead to different positions** exactly if they are not the same path
but for the spelling of subscripts, and in particular if all subscripts are plain numerals. -/
theorem positions_differ_iff {v : Value} {p q : Bytes} (hp : Canonical p) (hq : Canonical q)
    (hne : p ≠ q) (hvp : Resolves v p) (hvq : Resolves v q) :
    (position v (dissectPath p) ≠ position v (dissectPath q) ↔
        ¬Respelt v (dissectPath p) (dissectPath q)) ∧
      (PlainAlong v (dissectPath p) → PlainAlong v (dissectPath q) →
        position v (dissectPath p) ≠ position v (dissectPath q)) := by
  obtain ⟨steps, hsteps⟩ := exists_position hvp
  obtain ⟨steps', hsteps'⟩ := exists_position hvq
  have hiff : position v (dissectPath p) = position v (dissectPath q) ↔
      Respelt v (dissectPath p) (dissectPath q) := by
    rw [← position_eq_iff hsteps hsteps', hsteps, hsteps', Option.some_inj]
  refine ⟨not_congr hiff, fun hplain hplain' heq ↦ hne ?_⟩
  have hpaths := eq_of_respelt hsteps hplain hplain' (hiff.mp heq)
  rw [← hp, ← hq, hpaths]

/-- An array with an object in it. -/
def nested : Value := .array [.object [(ascii "a", .null)], .null]

theorem positions_differ_nested :
    position nested (dissectPath (ascii "/1")) ≠ position nested (dissectPath (ascii "/0/a")) := by
  have hone : dissectPath (ascii "/1") = [ascii "1"] := by decide +kernel
  have hzero : dissectPath (ascii "/0/a") = [ascii "0", ascii "a"] := by decide +kernel
  have hrespelt : ¬Respelt nested (dissectPath (ascii "/1")) (dissectPath (ascii "/0/a")) := by
    rw [hone, hzero]
    rintro ⟨-, hrest⟩
    exact hrest .null rfl
  exact (positions_differ_iff (by decide +kernel) (by decide +kernel) (by decide)
    (by decide +kernel) (by decide +kernel)).1.mpr hrespelt

/-- Two canonical paths to the first element. -/
theorem zeros_lead_to_one_element :
    ascii "/0" ≠ ascii "/00" ∧ Canonical (ascii "/0") ∧ Canonical (ascii "/00") ∧
      Resolves nested (ascii "/0") ∧ Resolves nested (ascii "/00") ∧
      position nested (dissectPath (ascii "/0")) =
        position nested (dissectPath (ascii "/00")) := by
  decide +kernel

end Json

end BoostConnector
