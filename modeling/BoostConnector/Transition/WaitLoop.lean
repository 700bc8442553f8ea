import BoostConnector.Transition.Run

/-!
# Waiting in a loop for a condition

A coroutine that executes `while (!holds) co_await cv.async_wait(..)` on the state of a component,
for any number of calls and any kinds `κ` of conditions. Some steps of the component signal, which
completes all outstanding waits; a waiter that was woken looks at the condition again when it is
resumed, and one that was cancelled throws if it would have to wait once more.

If no step changes a condition without a signal, nobody sleeps while his condition holds
(`exec_awake`), and who is resumed in such a state returns (`Awake.resume_returns`).
-/

namespace BoostConnector

namespace Transition

/-- A call of the loop. -/
inductive WaitCall where
  | suspended
  | woken (cancelled : Bool)
  | returned
  | threw
  deriving DecidableEq, Repr

namespace WaitCall

/-- The wait is completed. -/
def wake : WaitCall → WaitCall
  | suspended => woken false
  | call => call

def isOutstanding : WaitCall → Bool
  | suspended | woken _ => true
  | returned | threw => false

theorem wake_ne_suspended (call : WaitCall) : call.wake ≠ suspended := by
  rcases call with _ | _ | _ | _ <;> simp [wake]

theorem wake_eq_returned {call : WaitCall} : call.wake = returned ↔ call = returned := by
  rcases call with _ | _ | _ | _ <;> simp [wake]

end WaitCall

/-- A component with the calls of the loop, in the order in which they were made. -/
structure Waiting (κ σ : Type*) where
  state : σ
  calls : List (κ × WaitCall) := []

inductive WaitAction (κ α : Type*) where
  | inner (a : α)
  | call (k : κ)
  | resume (i : ℕ)
  | cancel (i : ℕ)

section

variable {α σ κ : Type*} (step : α → σ → Option σ) (holds : κ → σ → Bool) (signals : σ → σ → Bool)

/-- The loop from a look at the condition to its next suspension point. -/
def proceed (k : κ) (cancelled : Bool) (s : σ) : WaitCall :=
  if holds k s then .returned else if cancelled then .threw else .suspended

def waitStep : WaitAction κ α → Waiting κ σ → Option (Waiting κ σ)
  | .inner a, w =>
    (step a w.state).map fun t ↦
      { state := t
        calls := if signals w.state t then w.calls.map fun x ↦ (x.1, x.2.wake) else w.calls }
  | .call k, w => some { w with calls := w.calls ++ [(k, proceed holds k false w.state)] }
  | .resume i, w =>
    match w.calls[i]? with
    | some (k, .woken cancelled) =>
      some { w with calls := w.calls.set i (k, proceed holds k cancelled w.state) }
    | _ => none
  | .cancel i, w =>
    match w.calls[i]? with
    | some (k, .suspended) | some (k, .woken _) =>
      some { w with calls := w.calls.set i (k, .woken true) }
    | _ => none

end

variable {α σ κ : Type*} {step : α → σ → Option σ} {holds : κ → σ → Bool} {signals : σ → σ → Bool}

theorem proceed_eq_suspended {k : κ} {cancelled : Bool} {s : σ}
    (h : proceed holds k cancelled s = .suspended) : holds k s = false := by
  unfold proceed at h
  split_ifs at h with hk
  exact Bool.eq_false_iff.mpr hk

theorem proceed_eq_returned {k : κ} {cancelled : Bool} {s : σ} :
    proceed holds k cancelled s = .returned ↔ holds k s = true := by
  unfold proceed
  split_ifs with hk hcancelled <;> simp [hk]

/-- The component stays, and one call is added or goes on. -/
inductive CallMove (holds : κ → σ → Bool) (w : Waiting κ σ) : Waiting κ σ → Prop
  | called (k : κ) (cancelled : Bool) :
      CallMove holds w { w with calls := w.calls ++ [(k, proceed holds k cancelled w.state)] }
  | resumed {i : ℕ} {k : κ} {cancelled : Bool} (hi : w.calls[i]? = some (k, .woken cancelled)) :
      CallMove holds w { w with calls := w.calls.set i (k, proceed holds k cancelled w.state) }
  | cancelled {i : ℕ} {k : κ} {call : WaitCall} (hi : w.calls[i]? = some (k, call))
      (hcall : call.isOutstanding = true) :
      CallMove holds w { w with calls := w.calls.set i (k, .woken true) }

/-- A step is one of the component, or a move of a call. -/
theorem waitStep_cases {a : WaitAction κ α} {w u : Waiting κ σ}
    (h : waitStep step holds signals a w = some u) :
    (∃ b t, step b w.state = some t ∧ u.state = t ∧
        u.calls = if signals w.state t then w.calls.map fun x ↦ (x.1, x.2.wake) else w.calls) ∨
      CallMove holds w u := by
  rcases a with b | k | i | i
  · obtain ⟨t, ht, rfl⟩ := Option.map_eq_some_iff.mp h
    exact .inl ⟨b, t, ht, rfl, rfl⟩
  · exact .inr (Option.some_inj.mp h ▸ .called k false)
  · simp only [waitStep] at h
    split at h
    · exact .inr (Option.some_inj.mp h ▸ .resumed ‹_›)
    · exact absurd h (by simp)
  · simp only [waitStep] at h
    split at h
    · exact .inr (Option.some_inj.mp h ▸ .cancelled ‹_› rfl)
    · exact .inr (Option.some_inj.mp h ▸ .cancelled ‹_› rfl)
    · exact absurd h (by simp)

/-! ## No wake-up is lost -/

/-- Who sleeps waits for a condition that does not hold. -/
def Awake (holds : κ → σ → Bool) (w : Waiting κ σ) : Prop :=
  ∀ k, (k, WaitCall.suspended) ∈ w.calls → holds k w.state = false

theorem CallMove.awake {w u : Waiting κ σ} (hw : Awake holds w) (h : CallMove holds w u) :
    Awake holds u := by
  intro k hk
  cases h with
  | called k' cancelled =>
    rcases List.mem_append.mp hk with hk | hk
    · exact hw k hk
    · rw [List.mem_singleton, Prod.mk.injEq] at hk
      obtain ⟨rfl, hproceed⟩ := hk
      exact proceed_eq_suspended hproceed.symm
  | resumed hi =>
    rcases List.mem_or_eq_of_mem_set hk with hk | hk
    · exact hw k hk
    · rw [Prod.mk.injEq] at hk
      obtain ⟨rfl, hproceed⟩ := hk
      exact proceed_eq_suspended hproceed.symm
  | cancelled hi hcall =>
    rcases List.mem_or_eq_of_mem_set hk with hk | hk
    · exact hw k hk
    · simp at hk

/-- A step that changes a condition signals. -/
def Signalled (step : α → σ → Option σ) (holds : κ → σ → Bool) (signals : σ → σ → Bool) : Prop :=
  ∀ a s t k, step a s = some t → signals s t = false → holds k t = holds k s

theorem waitStep_awake (hsignalled : Signalled step holds signals) {a : WaitAction κ α}
    {w u : Waiting κ σ} (hw : Awake holds w) (h : waitStep step holds signals a w = some u) :
    Awake holds u := by
  rcases waitStep_cases h with ⟨b, t, ht, hstate, hcalls⟩ | hmove
  · intro k hk
    rw [hcalls] at hk
    rw [hstate]
    split_ifs at hk with hsignal
    · -- everybody has been woken
      obtain ⟨x, -, hx⟩ := List.mem_map.mp hk
      exact absurd (congrArg Prod.snd hx) x.2.wake_ne_suspended
    · rw [hsignalled b w.state t k ht (Bool.eq_false_iff.mpr hsignal)]
      exact hw k hk
  · exact hmove.awake hw

/-- **Nobody sleeps while his condition holds.** -/
theorem exec_awake (hsignalled : Signalled step holds signals) {actions : List (WaitAction κ α)}
    {s : σ} {w : Waiting κ σ}
    (hrun : exec (waitStep step holds signals) actions { state := s } = some w) :
    Awake holds w :=
  exec_invariant (Awake holds) (fun hw h ↦ waitStep_awake hsignalled hw h)
    (fun _ hk ↦ absurd hk List.not_mem_nil) hrun

/-- Who waits for a condition that holds has been woken, and returns when he is resumed. -/
theorem Awake.resume_returns {w : Waiting κ σ} (hw : Awake holds w) {i : ℕ} {k : κ}
    {call : WaitCall} (hi : w.calls[i]? = some (k, call)) (hcall : call.isOutstanding = true)
    (hk : holds k w.state = true) :
    ∃ u, waitStep step holds signals (.resume i) w = some u ∧
      u.calls[i]? = some (k, .returned) := by
  obtain ⟨hlt, -⟩ := List.getElem?_eq_some_iff.mp hi
  rcases call with _ | cancelled | _ | _
  · have hfalse := hw k (List.mem_of_getElem? hi)
    rw [hk] at hfalse
    exact absurd hfalse (by simp)
  · refine ⟨{ w with calls := w.calls.set i (k, .returned) }, ?_, List.getElem?_set_self hlt⟩
    rw [waitStep, hi]
    exact congrArg some (by rw [proceed_eq_returned.mpr hk])
  · simp [WaitCall.isOutstanding] at hcall
  · simp [WaitCall.isOutstanding] at hcall

/-- Who returns does so in a state in which his condition holds. -/
theorem holds_of_returns {a : WaitAction κ α} {w u : Waiting κ σ} {i : ℕ} {k : κ}
    (h : waitStep step holds signals a w = some u) (hi : w.calls[i]? ≠ some (k, .returned))
    (hi' : u.calls[i]? = some (k, .returned)) : holds k u.state = true := by
  rcases waitStep_cases h with ⟨b, t, ht, hstate, hcalls⟩ | hmove
  · -- a signal wakes, and nobody returns in the step
    rw [hcalls] at hi'
    split_ifs at hi'
    · rw [List.getElem?_map, Option.map_eq_some_iff] at hi'
      obtain ⟨x, hx, hreturned⟩ := hi'
      rw [Prod.mk.injEq, WaitCall.wake_eq_returned] at hreturned
      obtain ⟨rfl, hcall⟩ := hreturned
      exact absurd (hx.trans (by rw [← hcall])) hi
    · exact absurd hi' hi
  · cases hmove with
    | called k' cancelled =>
      -- a call that returns at once is the new one
      rcases Nat.lt_or_ge i w.calls.length with hlt | hge
      · rw [List.getElem?_append_left hlt] at hi'
        exact absurd hi' hi
      · rw [List.getElem?_append_right hge, List.getElem?_singleton] at hi'
        split_ifs at hi'
        rw [Option.some_inj, Prod.mk.injEq] at hi'
        obtain ⟨rfl, hproceed⟩ := hi'
        exact proceed_eq_returned.mp hproceed
    | @resumed j k' cancelled hj =>
      by_cases hij : j = i
      · subst hij
        rw [List.getElem?_set_self (List.getElem?_eq_some_iff.mp hj).1, Option.some_inj,
          Prod.mk.injEq] at hi'
        obtain ⟨rfl, hproceed⟩ := hi'
        exact proceed_eq_returned.mp hproceed
      · rw [List.getElem?_set_ne hij] at hi'
        exact absurd hi' hi
    | @cancelled j k' call hj hcall =>
      by_cases hij : j = i
      · subst hij
        rw [List.getElem?_set_self (List.getElem?_eq_some_iff.mp hj).1] at hi'
        simp at hi'
      · rw [List.getElem?_set_ne hij] at hi'
        exact absurd hi' hi

/-! ## Without signals -/

/-- Where the component has stopped to signal, a waiter sleeps on unless he is cancelled. -/
theorem exec_sleeps {J : σ → Prop}
    (hsilent : ∀ a s t, J s → step a s = some t → J t ∧ signals s t = false)
    {actions : List (WaitAction κ α)} {w u : Waiting κ σ} {i : ℕ} {k : κ} (hw : J w.state)
    (hi : w.calls[i]? = some (k, .suspended)) (hcancel : .cancel i ∉ actions)
    (hrun : exec (waitStep step holds signals) actions w = some u) :
    u.calls[i]? = some (k, .suspended) := by
  have hC : Along (waitStep step holds signals) (fun a _ ↦ a ≠ .cancel i) actions w := by
    refine along_of_forall fun before a after t heq _ ↦ ?_
    rintro rfl
    exact hcancel (heq ▸ by simp)
  -- the invariant is that the component is silent and the call still suspended
  have hstep {a : WaitAction κ α} {w u : Waiting κ σ}
      (hw : J w.state ∧ w.calls[i]? = some (k, .suspended)) (ha : a ≠ .cancel i)
      (h : waitStep step holds signals a w = some u) :
      J u.state ∧ u.calls[i]? = some (k, .suspended) := by
    obtain ⟨hJ, hi⟩ := hw
    rcases a with b | k' | j | j
    · obtain ⟨t, ht, rfl⟩ := Option.map_eq_some_iff.mp h
      obtain ⟨hJt, hquiet⟩ := hsilent b w.state t hJ ht
      rw [hquiet]
      exact ⟨hJt, hi⟩
    · obtain rfl := Option.some_inj.mp h
      exact ⟨hJ, (List.getElem?_append_left (List.getElem?_eq_some_iff.mp hi).1).trans hi⟩
    · simp only [waitStep] at h
      split at h
      · rename_i hj
        obtain rfl := Option.some_inj.mp h
        have hij : j ≠ i := by
          rintro rfl
          simp [hi] at hj
        exact ⟨hJ, (List.getElem?_set_ne hij).trans hi⟩
      · exact absurd h (by simp)
    · have hij : j ≠ i := by
        rintro rfl
        exact ha rfl
      simp only [waitStep] at h
      split at h
      · exact Option.some_inj.mp h ▸ ⟨hJ, (List.getElem?_set_ne hij).trans hi⟩
      · exact Option.some_inj.mp h ▸ ⟨hJ, (List.getElem?_set_ne hij).trans hi⟩
      · exact absurd h (by simp)
  exact (exec_invariant_of_along _ (fun w ↦ J w.state ∧ w.calls[i]? = some (k, .suspended))
    hstep ⟨hw, hi⟩ hC hrun).2

end Transition

end BoostConnector
