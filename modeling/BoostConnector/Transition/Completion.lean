import BoostConnector.Transition.Run

/-!
# Runs that come to an end

The actions of a kind `p` are those of a task, and the others are those of its surroundings. The
task is stuck where no action of its kind is enabled. If each of its actions takes one unit off a
measure that the surroundings leave alone, a run takes as many actions of the task as units are gone
(`exec_countdown`), and if the task is never stuck while units are left, it can be run to its end
(`exec_completes`). A task that is left to itself, and whose actions each take something off the
measure, comes to a state where it is stuck (`exec_descends`, `exec_comesToRest`). If that is so of
the steps that meet a condition only, they are the steps of a relation of their own (`guarded`,
`exec_guarded_comesToRest`).
-/

namespace BoostConnector

namespace Transition

variable {α σ : Type*} {step : α → σ → Option σ} {p : α → Bool} {μ : σ → ℕ} {I : σ → Prop}

/-- No action of the kind `p` is enabled. -/
def Stuck (step : α → σ → Option σ) (p : α → Bool) (s : σ) : Prop :=
  ∀ a, p a = true → step a s = none

theorem exists_of_not_stuck {s : σ} (h : ¬Stuck step p s) :
    ∃ a t, p a = true ∧ step a s = some t := by
  simp only [Stuck, not_forall, ← ne_eq, Option.ne_none_iff_exists'] at h
  obtain ⟨a, ha, t, ht⟩ := h
  exact ⟨a, t, ha, ht⟩

/-- What a run took off the measure is the number of its actions of the kind `p`. -/
theorem exec_countdown
    (hstep : ∀ {a s t}, I s → step a s = some t → I t ∧ μ t + (if p a then 1 else 0) = μ s)
    {as : List α} {s t : σ} (hs : I s) (hrun : exec step as s = some t) :
    I t ∧ μ t + as.countP p = μ s := by
  induction as generalizing s with
  | nil =>
    rw [exec_nil, Option.some_inj] at hrun
    rw [← hrun, List.countP_nil]
    exact ⟨hs, rfl⟩
  | cons a as ih =>
    rw [exec_cons, Option.bind_eq_some_iff] at hrun
    obtain ⟨u, hu, hrun⟩ := hrun
    obtain ⟨hIu, hμu⟩ := hstep hs hu
    obtain ⟨hIt, hμt⟩ := ih hIu hrun
    refine ⟨hIt, ?_⟩
    rw [List.countP_cons]
    omega

/-- As long as units are left the task can go on, so it can be run until none is. -/
theorem exec_completes
    (hstep : ∀ {a s t}, I s → step a s = some t → I t ∧ μ t + (if p a then 1 else 0) = μ s)
    (hprogress : ∀ {s}, I s → 0 < μ s → ¬Stuck step p s) {s : σ} (hs : I s) :
    ∃ as t, (∀ a ∈ as, p a = true) ∧ exec step as s = some t ∧ μ t = 0 := by
  -- by induction on the units that are left
  induction hn : μ s generalizing s with
  | zero => exact ⟨[], s, List.forall_mem_nil _, rfl, hn⟩
  | succ n ih =>
    obtain ⟨a, u, ha, hu⟩ := exists_of_not_stuck (hprogress hs (by omega))
    obtain ⟨hIu, hμu⟩ := hstep hs hu
    rw [if_pos ha] at hμu
    obtain ⟨as, t, has, hrun, ht⟩ := ih hIu (by omega)
    refine ⟨a :: as, t, List.forall_mem_cons.mpr ⟨ha, has⟩, ?_, ht⟩
    rw [exec_cons, hu]
    exact hrun

/-! ## A task that is left to itself -/

/-- The measure bounds the number of its actions. -/
theorem exec_descends
    (hstep : ∀ {a s t}, I s → p a = true → step a s = some t → I t ∧ μ t < μ s) {as : List α}
    {s t : σ} (hs : I s) (has : ∀ a ∈ as, p a = true) (hrun : exec step as s = some t) :
    I t ∧ as.length + μ t ≤ μ s := by
  induction as generalizing s with
  | nil =>
    rw [exec_nil, Option.some_inj] at hrun
    rw [← hrun, List.length_nil, Nat.zero_add]
    exact ⟨hs, Nat.le_refl _⟩
  | cons a as ih =>
    obtain ⟨ha, has⟩ := List.forall_mem_cons.mp has
    rw [exec_cons, Option.bind_eq_some_iff] at hrun
    obtain ⟨u, hu, hrun⟩ := hrun
    obtain ⟨hIu, hlt⟩ := hstep hs ha hu
    obtain ⟨hIt, hle⟩ := ih hIu has hrun
    refine ⟨hIt, ?_⟩
    rw [List.length_cons]
    omega

theorem exec_comesToRest
    (hstep : ∀ {a s t}, I s → p a = true → step a s = some t → I t ∧ μ t < μ s) {s : σ} (hs : I s) :
    ∃ as t, (∀ a ∈ as, p a = true) ∧ exec step as s = some t ∧ Stuck step p t := by
  -- an action may take off any number of units, so the induction is strong
  induction hn : μ s using Nat.strongRecOn generalizing s with
  | ind n ih =>
    by_cases hstuck : Stuck step p s
    · exact ⟨[], s, List.forall_mem_nil _, rfl, hstuck⟩
    · obtain ⟨a, u, ha, hu⟩ := exists_of_not_stuck hstuck
      obtain ⟨hIu, hlt⟩ := hstep hs ha hu
      obtain ⟨as, t, has, hrun, ht⟩ := ih (μ u) (hn ▸ hlt) hIu rfl
      refine ⟨a :: as, t, List.forall_mem_cons.mpr ⟨ha, has⟩, ?_, ht⟩
      rw [exec_cons, hu]
      exact hrun

/-! ## Steps that meet a condition -/

def guarded (C : α → σ → Prop) [∀ a s, Decidable (C a s)] (step : α → σ → Option σ) (a : α)
    (s : σ) : Option σ :=
  if C a s then step a s else none

variable {C : α → σ → Prop} [∀ a s, Decidable (C a s)]

theorem guarded_eq_some {a : α} {s t : σ} :
    guarded C step a s = some t ↔ C a s ∧ step a s = some t := by
  rw [guarded, Option.ite_none_right_eq_some]

theorem exec_guarded {as : List α} {s t : σ} :
    exec (guarded C step) as s = some t ↔ Along step C as s ∧ exec step as s = some t := by
  induction as generalizing s with
  | nil => simp [Along]
  | cons a as ih =>
    rw [exec_cons, exec_cons, Option.bind_eq_some_iff, Option.bind_eq_some_iff]
    constructor
    · rintro ⟨u, hu, hrun⟩
      obtain ⟨hC, hu⟩ := guarded_eq_some.mp hu
      obtain ⟨halong, hrun⟩ := ih.mp hrun
      refine ⟨⟨hC, ?_⟩, u, hu, hrun⟩
      rw [hu]
      exact halong
    · rintro ⟨halong, u, hu, hrun⟩
      obtain ⟨hC, halong⟩ := along_cons_of_step halong hu
      exact ⟨u, guarded_eq_some.mpr ⟨hC, hu⟩, ih.mpr ⟨halong, hrun⟩⟩

theorem stuck_guarded {s : σ} : Stuck (guarded C step) p s ↔
    ∀ a, p a = true → C a s → step a s = none := by
  refine forall₂_congr fun a _ ↦ ?_
  unfold guarded
  split_ifs with hC
  · simp [hC]
  · simp [hC]

/-- A task that is left to itself under the condition comes to rest, and the measure bounds the
number of its actions. -/
theorem exec_guarded_comesToRest
    (hstep : ∀ {a s t}, I s → C a s → p a = true → step a s = some t → I t ∧ μ t < μ s) {s : σ}
    (hs : I s) :
    (∀ as t, (∀ a ∈ as, p a = true) → Along step C as s → exec step as s = some t →
      I t ∧ as.length ≤ μ s) ∧
      ∃ as t, (∀ a ∈ as, p a = true) ∧ Along step C as s ∧ exec step as s = some t ∧
        Stuck (guarded C step) p t := by
  have hguarded {a : α} {s t : σ} (hs : I s) (ha : p a = true)
      (h : guarded C step a s = some t) : I t ∧ μ t < μ s := by
    obtain ⟨hC, h⟩ := guarded_eq_some.mp h
    exact hstep hs hC ha h
  constructor
  · intro as t has halong hrun
    obtain ⟨ht, hle⟩ := exec_descends hguarded hs has (exec_guarded.mpr ⟨halong, hrun⟩)
    exact ⟨ht, Nat.le_of_add_right_le hle⟩
  · obtain ⟨as, t, has, hrun, hstuck⟩ := exec_comesToRest hguarded hs
    obtain ⟨halong, hrun⟩ := exec_guarded.mp hrun
    exact ⟨as, t, has, halong, hrun, hstuck⟩

end Transition

end BoostConnector
