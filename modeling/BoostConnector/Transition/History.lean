import Mathlib.Data.List.Infix

/-!
# Histories

A history is the list of everything that happened, oldest first. Two notions of the past are enough
for the trace properties of the developments above: `AtEach P t`, which says that `P` relates every
item of `t` to the items before it, and `SinceLast p t s`, which says that `s` is what happened
after the last item satisfying `p`.
-/

namespace BoostConnector

namespace History

variable {α : Type*}

/-! ## A property of every item and its past -/

/-- `P past x` holds of every item `x` of the history and the items before it. -/
def AtEach (P : List α → α → Prop) (t : List α) : Prop := ∀ past x, past ++ [x] <+: t → P past x

theorem atEach_nil (P : List α → α → Prop) : AtEach P [] := fun past x h ↦
  absurd (List.prefix_nil.mp h) (List.concat_ne_nil x past)

@[simp] theorem atEach_concat {P : List α → α → Prop} {t : List α} {x : α} :
    AtEach P (t ++ [x]) ↔ AtEach P t ∧ P t x := by
  constructor
  · intro h
    exact ⟨fun past y hy ↦ h past y (hy.trans (List.prefix_append _ _)), h t x (List.prefix_refl _)⟩
  · rintro ⟨ht, hx⟩ past y hy
    rcases List.prefix_concat_iff.mp hy with heq | hy
    · obtain ⟨rfl, hsingle⟩ := List.append_inj' heq rfl
      rw [List.singleton_inj] at hsingle
      exact hsingle ▸ hx
    · exact ht past y hy

theorem AtEach.append_of_forall {P : List α → α → Prop} {t l : List α} (h : AtEach P t)
    (hl : ∀ x ∈ l, ∀ past, P past x) : AtEach P (t ++ l) := by
  induction l using List.reverseRecOn with
  | nil => rwa [List.append_nil]
  | append_singleton l x ih =>
    rw [← List.append_assoc, atEach_concat]
    exact ⟨ih fun y hy ↦ hl y (List.mem_append_left _ hy), hl x (by simp) _⟩

/-! ## What happened since -/

/-- `s` is what happened after the last item of `t` satisfying `p`. -/
def SinceLast (p : α → Prop) (t s : List α) : Prop :=
  ∃ before x, t = before ++ x :: s ∧ p x ∧ ∀ y ∈ s, ¬p y

theorem sinceLast_concat_self {p : α → Prop} {t : List α} {x : α} (hx : p x) :
    SinceLast p (t ++ [x]) [] :=
  ⟨t, x, rfl, hx, by simp⟩

theorem SinceLast.concat {p : α → Prop} {t s : List α} {x : α} (h : SinceLast p t s) (hx : ¬p x) :
    SinceLast p (t ++ [x]) (s ++ [x]) := by
  obtain ⟨before, y, rfl, hy, hs⟩ := h
  refine ⟨before, y, by simp, hy, fun z hz ↦ ?_⟩
  rcases List.mem_append.mp hz with hz | hz
  · exact hs z hz
  · rw [List.mem_singleton.mp hz]
    exact hx

theorem SinceLast.of_concat {p : α → Prop} {t s : List α} {x : α} (h : SinceLast p (t ++ [x]) s)
    (hx : ¬p x) : ∃ r, s = r ++ [x] ∧ SinceLast p t r := by
  obtain ⟨before, y, heq, hy, hs⟩ := h
  rcases List.eq_nil_or_concat s with rfl | ⟨r, z, rfl⟩
  · obtain ⟨-, hxy⟩ := List.append_inj' heq rfl
    exact absurd (List.singleton_inj.mp hxy ▸ hy) hx
  · rw [List.concat_eq_append] at heq hs
    have hassoc : before ++ y :: (r ++ [z]) = (before ++ y :: r) ++ [z] := by simp
    rw [hassoc] at heq
    obtain ⟨rfl, hz⟩ := List.append_inj' heq rfl
    obtain rfl := List.singleton_inj.mp hz
    refine ⟨r, List.concat_eq_append, before, y, rfl, hy, fun w hw ↦ ?_⟩
    exact hs w (List.mem_append_left _ hw)

end History

end BoostConnector
