import Mathlib.Data.List.Forall2
import Mathlib.Logic.Relation

/-!
# Runs of a partial step function

A component is given by a state type and a step function `α → σ → Option σ`. The action carries
every choice the environment makes, and `none` says that the action is not enabled in the state, so
a run is determined by its list of actions and can be evaluated.

The following rules carry the developments above: an invariant of every step is an invariant of
every run (`exec_invariant`), the same for the runs that take each of their steps in a state meeting
a condition (`exec_invariant_of_along`), such a condition is exact if each step meets it just when
it keeps the invariant (`forall_prefix_iff_along`), and a step-by-step simulation extends to runs
(`exec_simulation` or `exec_answered`, and `exec_lockstep` or `exec_rel` if it is one step for one
step). What the steps add to a balance, the run adds to it together (`exec_total`).
-/

namespace BoostConnector

namespace Transition

variable {α σ τ : Type*} {step : α → σ → Option σ}

/-! ## Execution -/

/-- The run of `step` on a list of actions, undefined once an action is not enabled. -/
def exec (step : α → σ → Option σ) : List α → σ → Option σ
  | [], s => some s
  | a :: as, s => (step a s).bind (exec step as)

@[simp] theorem exec_nil (s : σ) : exec step [] s = some s := rfl

@[simp] theorem exec_cons (a : α) (as : List α) (s : σ) :
    exec step (a :: as) s = (step a s).bind (exec step as) := rfl

theorem exec_append (as bs : List α) (s : σ) :
    exec step (as ++ bs) s = (exec step as s).bind (exec step bs) := by
  induction as generalizing s with
  | nil => rfl
  | cons a as ih =>
    rw [List.cons_append, exec_cons, exec_cons, Option.bind_assoc]
    exact Option.bind_congr fun t _ ↦ ih t

theorem exec_concat (as : List α) (a : α) (s : σ) :
    exec step (as ++ [a]) s = (exec step as s).bind (step a) := by
  rw [exec_append]
  exact Option.bind_congr fun t _ ↦ Option.bind_fun_some (step a t)

/-! ## Runs under a condition -/

/-- Every action of the run is taken in a state that meets `C`. -/
def Along (step : α → σ → Option σ) (C : α → σ → Prop) : List α → σ → Prop
  | [], _ => True
  | a :: as, s => C a s ∧ match step a s with
    | none => True
    | some t => Along step C as t

instance Along.decidable (C : α → σ → Prop) [∀ a s, Decidable (C a s)] :
    ∀ (as : List α) (s : σ), Decidable (Along step C as s)
  | [], _ => inferInstanceAs (Decidable True)
  | a :: as, s =>
    have : Decidable (match step a s with | none => True | some t => Along step C as t) :=
      match step a s with
      | none => inferInstanceAs (Decidable True)
      | some t => Along.decidable C as t
    inferInstanceAs (Decidable (_ ∧ _))

theorem along_cons_of_step {C : α → σ → Prop} {a : α} {as : List α} {s t : σ}
    (h : Along step C (a :: as) s) (hstep : step a s = some t) : C a s ∧ Along step C as t := by
  obtain ⟨hC, hrest⟩ := h
  rw [hstep] at hrest
  exact ⟨hC, hrest⟩

theorem Along.imp {C D : α → σ → Prop} (h : ∀ {a s}, C a s → D a s) {as : List α} {s : σ}
    (hC : Along step C as s) : Along step D as s := by
  induction as generalizing s with
  | nil => trivial
  | cons a as ih =>
    refine ⟨h hC.1, ?_⟩
    rcases hstep : step a s with _ | t
    · trivial
    · exact ih (along_cons_of_step hC hstep).2

theorem along_append {C : α → σ → Prop} {as bs : List α} {s t : σ}
    (h : Along step C (as ++ bs) s) (hrun : exec step as s = some t) :
    Along step C as s ∧ Along step C bs t := by
  induction as generalizing s with
  | nil =>
    rw [exec_nil, Option.some_inj] at hrun
    exact ⟨trivial, hrun ▸ h⟩
  | cons a as ih =>
    rw [exec_cons, Option.bind_eq_some_iff] at hrun
    obtain ⟨u, hu, hrun⟩ := hrun
    rw [List.cons_append] at h
    obtain ⟨hC, hrest⟩ := along_cons_of_step h hu
    obtain ⟨h₁, h₂⟩ := ih hrest hrun
    refine ⟨⟨hC, ?_⟩, h₂⟩
    rw [hu]
    exact h₁

theorem along_of_forall {C : α → σ → Prop} {as : List α} {s : σ}
    (h : ∀ before a after t, as = before ++ a :: after → exec step before s = some t → C a t) :
    Along step C as s := by
  induction as generalizing s with
  | nil => trivial
  | cons a as ih =>
    refine ⟨h [] a as s rfl rfl, ?_⟩
    cases hstep : step a s with
    | none => trivial
    | some t =>
      refine ih fun before b after u heq hrun ↦ h (a :: before) b after u (by rw [heq]; rfl) ?_
      rw [exec_cons, hstep]
      exact hrun

/-! ## Invariants and simulations -/

/-- An invariant of the steps that meet `C` is an invariant of the runs along `C`. -/
theorem exec_invariant_of_along (C : α → σ → Prop) (I : σ → Prop)
    (hstep : ∀ {a s t}, I s → C a s → step a s = some t → I t) {as : List α} {s t : σ} (hs : I s)
    (hC : Along step C as s) (hrun : exec step as s = some t) : I t := by
  induction as generalizing s with
  | nil =>
    rw [exec_nil, Option.some_inj] at hrun
    exact hrun ▸ hs
  | cons a as ih =>
    rw [exec_cons, Option.bind_eq_some_iff] at hrun
    obtain ⟨u, hu, hrun⟩ := hrun
    obtain ⟨hCa, hCas⟩ := along_cons_of_step hC hu
    exact ih (hstep hs hCa hu) hCas hrun

/-- If a step keeps `I` just when it meets `C`, then the runs that keep `I` are those along `C`. A
step that is not enabled has to meet `C`. -/
theorem forall_prefix_iff_along {C : α → σ → Prop} {I : σ → Prop} {as : List α} {s : σ}
    (hstep : ∀ {a s t}, I s → step a s = some t → (I t ↔ C a s))
    (hnone : ∀ {before a after t}, as = before ++ a :: after → exec step before s = some t →
      step a t = none → C a t) (hs : I s) :
    (∀ before t, before <+: as → exec step before s = some t → I t) ↔ Along step C as s := by
  constructor
  · intro h
    refine along_of_forall fun before a after t heq hrun ↦ ?_
    have ht := h before t ⟨a :: after, heq.symm⟩ hrun
    cases hnext : step a t with
    | none => exact hnone heq hrun hnext
    | some u =>
      -- the state after the step is a state of the run as well
      refine (hstep ht hnext).mp (h (before ++ [a]) u ⟨after, by simp [heq]⟩ ?_)
      rw [exec_concat, hrun]
      exact hnext
  · rintro hC before t ⟨after, rfl⟩ hrun
    exact exec_invariant_of_along C I (fun hI hCa hnext ↦ (hstep hI hnext).mpr hCa) hs
      (along_append hC hrun).1 hrun

/-- An action of a run that goes through is enabled. -/
theorem step_ne_none_of_exec {before after : List α} {a : α} {s t u : σ}
    (hrun : exec step (before ++ a :: after) s = some u) (hbefore : exec step before s = some t) :
    step a t ≠ none := by
  rw [exec_append, hbefore, Option.bind_some, exec_cons] at hrun
  intro hnone
  rw [hnone] at hrun
  exact absurd hrun (by simp)

theorem along_trivial (as : List α) (s : σ) : Along step (fun _ _ ↦ True) as s := by
  induction as generalizing s with
  | nil => trivial
  | cons a as ih =>
    refine ⟨trivial, ?_⟩
    cases step a s with
    | none => trivial
    | some t => exact ih t

/-- An invariant of every step is an invariant of every run. -/
theorem exec_invariant (I : σ → Prop) (hstep : ∀ {a s t}, I s → step a s = some t → I t)
    {as : List α} {s t : σ} (hs : I s) (hrun : exec step as s = some t) : I t :=
  exec_invariant_of_along (fun _ _ ↦ True) I (fun hI _ h ↦ hstep hI h) hs (along_trivial as s) hrun

/-- A run that keeps a history besides the state is a run of the component. -/
theorem exec_map {observe : α → τ → Option τ} (view : τ → σ)
    (h : ∀ a o, (observe a o).map view = step a (view o)) (as : List α) (o : τ) :
    (exec observe as o).map view = exec step as (view o) := by
  induction as generalizing o with
  | nil => rfl
  | cons a as ih =>
    rw [exec_cons, exec_cons, ← h, Option.bind_map, Option.map_bind]
    exact Option.bind_congr fun u _ ↦ ih u

/-- A map that takes every step meeting `C` to a path of `R` takes every run along `C` to one. -/
theorem exec_simulation {C : α → σ → Prop} {R : τ → τ → Prop} (view : σ → τ)
    (hstep : ∀ {a s t}, C a s → step a s = some t →
      Relation.ReflTransGen R (view s) (view t))
    {as : List α} {s t : σ} (hC : Along step C as s) (hrun : exec step as s = some t) :
    Relation.ReflTransGen R (view s) (view t) :=
  exec_invariant_of_along C (fun u ↦ Relation.ReflTransGen R (view s) (view u))
    (fun hI hCa h ↦ hI.trans (hstep hCa h)) Relation.ReflTransGen.refl hC hrun

/-- **Lock step.** If a second component answers each step with one of its own and `R` stays, it
answers each run along `C`. The actions of the two runs correspond by `A`. -/
theorem exec_lockstep {β υ : Type*} {step' : β → υ → Option υ} {C : α → σ → Prop} (A : α → β → Prop)
    {R : σ → υ → Prop}
    (hstep : ∀ {a b s t u}, A a b → R s u → C a s → step a s = some t →
      ∃ v, step' b u = some v ∧ R t v)
    {as : List α} {bs : List β} {s t : σ} {u : υ} (hA : List.Forall₂ A as bs) (hR : R s u)
    (hC : Along step C as s) (hrun : exec step as s = some t) :
    ∃ v, exec step' bs u = some v ∧ R t v := by
  induction hA generalizing s u with
  | nil =>
    rw [exec_nil, Option.some_inj] at hrun
    exact ⟨u, rfl, hrun ▸ hR⟩
  | @cons a b as bs hab hrest ih =>
    rw [exec_cons, Option.bind_eq_some_iff] at hrun
    obtain ⟨s', hs', hrun⟩ := hrun
    obtain ⟨hCa, hCas⟩ := along_cons_of_step hC hs'
    obtain ⟨u', hu', hR'⟩ := hstep hab hR hCa hs'
    obtain ⟨v, hv, hRv⟩ := ih hR' hCas hrun
    refine ⟨v, ?_, hRv⟩
    rw [exec_cons, hu']
    exact hv

/-- If a second component answers each step with a run of actions of the kind `B`, it answers each
run along `C` with one. -/
theorem exec_answered {β υ : Type*} {step' : β → υ → Option υ} {B : β → Prop} {C : α → σ → Prop}
    {R : σ → υ → Prop}
    (hstep : ∀ {a s t u}, R s u → C a s → step a s = some t →
      ∃ bs v, (∀ b ∈ bs, B b) ∧ exec step' bs u = some v ∧ R t v)
    {as : List α} {s t : σ} {u : υ} (hR : R s u) (hC : Along step C as s)
    (hrun : exec step as s = some t) :
    ∃ bs v, (∀ b ∈ bs, B b) ∧ exec step' bs u = some v ∧ R t v := by
  induction as generalizing s u with
  | nil =>
    rw [exec_nil, Option.some_inj] at hrun
    exact ⟨[], u, List.forall_mem_nil _, rfl, hrun ▸ hR⟩
  | cons a as ih =>
    rw [exec_cons, Option.bind_eq_some_iff] at hrun
    obtain ⟨s', hs', hrun⟩ := hrun
    obtain ⟨hCa, hCas⟩ := along_cons_of_step hC hs'
    obtain ⟨bs, u', hbs, hu', hR'⟩ := hstep hR hCa hs'
    obtain ⟨bs', v, hbs', hv, hRv⟩ := ih hR' hCas hrun
    refine ⟨bs ++ bs', v, List.forall_mem_append.mpr ⟨hbs, hbs'⟩, ?_, hRv⟩
    rw [exec_append, hu']
    exact hv

/-- Two components that answer each action alike, and neither of them if one does not, answer each
run alike. -/
theorem exec_rel {step' : α → τ → Option τ} {R : σ → τ → Prop}
    (hstep : ∀ a s t, R s t → Option.Rel R (step a s) (step' a t)) (as : List α) {s : σ} {t : τ}
    (h : R s t) : Option.Rel R (exec step as s) (exec step' as t) := by
  induction as generalizing s t with
  | nil => exact .some h
  | cons a as ih =>
    rw [exec_cons, exec_cons]
    have hnext := hstep a s t h
    generalize step a s = s' at hnext ⊢
    generalize step' a t = t' at hnext ⊢
    cases hnext with
    | none => exact .none
    | some hst => exact ih hst

/-! ## Accounts -/

/-- What the steps of a run cost together. -/
def total (step : α → σ → Option σ) (cost : α → σ → ℕ) : List α → σ → ℕ
  | [], _ => 0
  | a :: as, s => cost a s + (step a s).elim 0 (total step cost as)

theorem total_eq_zero_iff_along {cost : α → σ → ℕ} (as : List α) (s : σ) :
    total step cost as s = 0 ↔ Along step (fun a s ↦ cost a s = 0) as s := by
  induction as generalizing s with
  | nil => simp [total, Along]
  | cons a as ih =>
    rw [total, Nat.add_eq_zero_iff, Along]
    cases step a s with
    | none => simp
    | some t => rw [Option.elim_some, ih]

/-- If the balance of `f` and `g` changes by the cost of each step, it changes by their total. -/
theorem exec_total (I : σ → Prop) (f g : σ → ℕ) (cost : α → σ → ℕ)
    (hI : ∀ {a s t}, I s → step a s = some t → I t)
    (hstep : ∀ {a s t}, I s → step a s = some t → f t + g s = f s + g t + cost a s) {as : List α}
    {s t : σ} (hs : I s) (hrun : exec step as s = some t) :
    f t + g s = f s + g t + total step cost as s := by
  induction as generalizing s with
  | nil =>
    rw [exec_nil, Option.some_inj] at hrun
    rw [hrun, total]
    rfl
  | cons a as ih =>
    rw [exec_cons, Option.bind_eq_some_iff] at hrun
    obtain ⟨u, hu, hrun⟩ := hrun
    have hfirst := hstep hs hu
    have hrest := ih (hI hs hu) hrun
    rw [total, hu, Option.elim_some]
    omega

end Transition

end BoostConnector
