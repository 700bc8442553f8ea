import BoostConnector.Collections.ListPool
import BoostConnector.Transition.Run

/-!
# The asynchronous latch

`async_latch` on one executor. The latch is a timer: it is set if the timer expires at `min`, and a
waiter waits for the timer. To change the expiry of a timer completes all outstanding waits on it
with `operation_aborted`, which `wait` takes for the latch being set. `reset` changes the expiry as
well, and so releases the waiters of a latch that nobody has set.

A normal return is justified by the latch exactly when no waiter released by `reset` goes on before
the next `set` (`run_justified_iff`).
-/

namespace BoostConnector

namespace Util

open Collections Transition

/-! ## State -/

/-- The two points the timer is set to, `time_point::min()` and `time_point::max()`. -/
inductive TimePoint where
  | min
  | max
  deriving DecidableEq, Repr

inductive ErrorCode where
  | success
  | operationAborted
  deriving DecidableEq, Repr

/-- A call of `wait`: suspended in `impl_.async_wait`, to be resumed with an error code, or
completed. -/
inductive WaitPhase where
  | outstanding
  | completed (ec : ErrorCode)
  | returned
  | threw (ec : ErrorCode)
  deriving DecidableEq, Repr

/-- A call of `wait` and its history. -/
structure Wait where
  phase : WaitPhase
  /-- The latch was set when the call began, or `set` was called before it completed. -/
  sawSet : Bool := false
  /-- It was outstanding when `set` was called. -/
  releasedBySet : Bool := false
  /-- It was outstanding when `reset` was called. -/
  releasedByReset : Bool := false
  deriving DecidableEq, Repr

/-- `async_latch`, constructed unset, with the calls of `wait` in the order in which they were
made. -/
structure AsyncLatch where
  expiry : TimePoint := .max
  waits : List Wait := []
  deriving DecidableEq, Repr

/-! ## Operations -/

namespace Wait

/-- `wait` after `co_await`. -/
def proceed (ec : ErrorCode) : WaitPhase :=
  if ec = .operationAborted then .returned
  else .threw (if ec = .success then .operationAborted else ec)

/-- `set` happens to a wait. -/
def onSet (w : Wait) : Wait :=
  match w.phase with
  | .outstanding =>
    { w with phase := .completed .operationAborted, sawSet := true, releasedBySet := true }
  | .completed _ => { w with sawSet := true }
  | _ => w

def onReset (w : Wait) : Wait :=
  match w.phase with
  | .outstanding => { w with phase := .completed .operationAborted, releasedByReset := true }
  | _ => w

end Wait

namespace AsyncLatch

variable (l : AsyncLatch)

def isSet : Bool := l.expiry = .min

/-- `impl_.expires_at(min)` aborts the outstanding waits. -/
def set : AsyncLatch := { expiry := .min, waits := l.waits.map Wait.onSet }

/-- `impl_.expires_at(max)` does too. -/
def reset : AsyncLatch := { expiry := .max, waits := l.waits.map Wait.onReset }

/-- A new call of `wait`, up to its suspension point. -/
def wait : AsyncLatch :=
  { l with
    waits := l.waits ++
      [if l.isSet then { phase := .returned, sawSet := true } else { phase := .outstanding }] }

/-- The timer completes an outstanding wait because its time has come, which it never has at
`max`. -/
def expire (i : ℕ) : Option AsyncLatch := do
  let w ← l.waits[i]?
  if l.isSet ∧ w.phase = .outstanding then
    some { l with waits := l.waits.set i { w with phase := .completed .success } }
  else none

/-- A completed wait is resumed. -/
def resume (i : ℕ) : Option AsyncLatch := do
  let w ← l.waits[i]?
  match w.phase with
  | .completed ec => some { l with waits := l.waits.set i { w with phase := Wait.proceed ec } }
  | _ => none

inductive Action where
  | set
  | reset
  | isSet
  | wait
  | expire (i : ℕ)
  | resume (i : ℕ)

def step : Action → AsyncLatch → Option AsyncLatch
  | .set, l => some l.set
  | .reset, l => some l.reset
  | .isSet, l => some l
  | .wait, l => some l.wait
  | .expire i, l => l.expire i
  | .resume i, l => l.resume i

def run (actions : List Action) : Option AsyncLatch := exec step actions {}

/-! ## Normal returns -/

/-- Who has returned from `wait` has seen the latch set. -/
def Justified : Prop := ∀ w ∈ l.waits, w.phase = .returned → w.sawSet = true

instance : Decidable l.Justified := inferInstanceAs (Decidable (∀ w ∈ l.waits, _))

/-- A wait that `reset` has released goes on after a call of `set` only. -/
def ResumesAfterSet : Action → AsyncLatch → Prop
  | .resume i, l => ∀ w ∈ l.waits[i]?, w.releasedByReset = true → w.sawSet = true
  | _, _ => True

instance (a : Action) (l : AsyncLatch) : Decidable (ResumesAfterSet a l) :=
  match a with
  | .resume i => inferInstanceAs (Decidable (∀ w ∈ l.waits[i]?, _))
  | .set | .reset | .isSet | .wait | .expire _ => inferInstanceAs (Decidable True)

/-! ## The invariant -/

/-- What a wait has seen explains where it is. -/
inductive Explained (expiry : TimePoint) (w : Wait) : Prop
  | outstanding (hphase : w.phase = .outstanding) (hexpiry : expiry = .max)
      (hset : w.releasedBySet = false)
  | completed (hphase : w.phase = .completed .operationAborted)
      (hseen : w.sawSet = true ∨ w.releasedByReset = true)
  | returned (hphase : w.phase = .returned) (hseen : w.sawSet = true ∨ w.releasedByReset = true)

def Coherent : Prop := ∀ w ∈ l.waits, Explained l.expiry w

variable {l}

theorem explained_onSet {expiry : TimePoint} {w : Wait} (h : Explained expiry w) :
    Explained .min w.onSet := by
  rw [Wait.onSet]
  cases h with
  | outstanding hphase => simp only [hphase]; exact .completed rfl (.inl rfl)
  | completed hphase => simp only [hphase]; exact .completed rfl (.inl rfl)
  | returned hphase hseen => simp only [hphase]; exact .returned hphase hseen

theorem explained_onReset {expiry : TimePoint} {w : Wait} (h : Explained expiry w) :
    Explained .max w.onReset := by
  rw [Wait.onReset]
  cases h with
  | outstanding hphase => simp only [hphase]; exact .completed rfl (.inr rfl)
  | completed hphase hseen => simp only [hphase]; exact .completed hphase hseen
  | returned hphase hseen => simp only [hphase]; exact .returned hphase hseen

theorem coherent_map {f : Wait → Wait} {expiry : TimePoint} (h : l.Coherent)
    (hf : ∀ {w}, Explained l.expiry w → Explained expiry (f w)) :
    Coherent { expiry := expiry, waits := l.waits.map f } := by
  intro w hw
  obtain ⟨v, hv, rfl⟩ := List.mem_map.mp hw
  exact hf (h v hv)

theorem coherent_wait (h : l.Coherent) : l.wait.Coherent := by
  intro w hw
  rcases List.mem_append.mp hw with hw | hw
  · exact h w hw
  · rw [List.mem_singleton.mp hw]
    by_cases hset : l.isSet = true
    · rw [if_pos hset]
      exact .returned rfl (.inl rfl)
    · rw [if_neg hset]
      refine .outstanding rfl ?_ rfl
      rw [isSet, decide_eq_true_eq] at hset
      change l.expiry = .max
      cases hexpiry : l.expiry with
      | min => exact absurd hexpiry hset
      | max => rfl

/-- The timer never gets to complete a wait by itself. -/
theorem expire_eq_none (h : l.Coherent) (i : ℕ) : l.expire i = none := by
  rw [expire]
  cases hi : l.waits[i]? with
  | none => rfl
  | some w =>
    have hnot : ¬(l.isSet = true ∧ w.phase = .outstanding) := by
      rintro ⟨hset, hphase⟩
      rw [isSet, decide_eq_true_eq] at hset
      cases h w (List.mem_of_getElem? hi) with
      | outstanding _ hexpiry => simp [hset] at hexpiry
      | completed hcompleted => simp [hphase] at hcompleted
      | returned hreturned => simp [hphase] at hreturned
    simp [hnot]

/-- A wait that goes on returns. -/
theorem resume_cases {m : AsyncLatch} {i : ℕ} (h : l.Coherent) (hstep : l.resume i = some m) :
    ∃ w, l.waits[i]? = some w ∧ (w.sawSet = true ∨ w.releasedByReset = true) ∧
      m = { l with waits := l.waits.set i { w with phase := .returned } } := by
  rw [resume] at hstep
  obtain ⟨w, hi, hstep⟩ := Option.bind_eq_some_iff.mp hstep
  cases h w (List.mem_of_getElem? hi) with
  | outstanding hphase => simp [hphase] at hstep
  | completed hphase hseen =>
    rw [hphase] at hstep
    exact ⟨w, hi, hseen, (Option.some_inj.mp hstep).symm⟩
  | returned hphase => simp [hphase] at hstep

theorem coherent_of_step {a : Action} {m : AsyncLatch} (h : l.Coherent)
    (hstep : step a l = some m) : m.Coherent := by
  cases a with
  | set => exact Option.some_inj.mp hstep ▸ coherent_map h explained_onSet
  | reset => exact Option.some_inj.mp hstep ▸ coherent_map h explained_onReset
  | isSet => exact Option.some_inj.mp hstep ▸ h
  | wait => exact Option.some_inj.mp hstep ▸ coherent_wait h
  | expire i => rw [step, expire_eq_none h] at hstep; exact absurd hstep (by simp)
  | resume i =>
    obtain ⟨w, hi, hseen, rfl⟩ := resume_cases h hstep
    intro v hv
    rcases List.mem_or_eq_of_mem_set hv with hv | rfl
    · exact h v hv
    · exact .returned rfl hseen

/-! ## Steps and normal returns -/

theorem justified_map {f : Wait → Wait} {expiry : TimePoint}
    (hf : ∀ w, (f w).phase = .returned → w.phase = .returned ∧ (f w).sawSet = w.sawSet)
    (h : l.Justified) : Justified { expiry := expiry, waits := l.waits.map f } := by
  intro w hw hreturned
  obtain ⟨v, hv, rfl⟩ := List.mem_map.mp hw
  obtain ⟨hphase, hsaw⟩ := hf v hreturned
  rw [hsaw]
  exact h v hv hphase

/-- A step keeps normal returns justified just when it lets no waiter of `reset` through. -/
theorem justified_step_iff {a : Action} {m : AsyncLatch} (h : l.Coherent) (hl : l.Justified)
    (hstep : step a l = some m) : m.Justified ↔ ResumesAfterSet a l := by
  cases a with
  | set =>
    refine iff_of_true (Option.some_inj.mp hstep ▸ justified_map (fun w hw ↦ ?_) hl) trivial
    cases hphase : w.phase <;> simp_all [Wait.onSet]
  | reset =>
    refine iff_of_true (Option.some_inj.mp hstep ▸ justified_map (fun w hw ↦ ?_) hl) trivial
    cases hphase : w.phase <;> simp_all [Wait.onReset]
  | isSet => exact iff_of_true (Option.some_inj.mp hstep ▸ hl) trivial
  | wait =>
    refine iff_of_true (Option.some_inj.mp hstep ▸ ?_) trivial
    intro w hw hreturned
    rcases List.mem_append.mp hw with hw | hw
    · exact hl w hw hreturned
    · rw [List.mem_singleton.mp hw] at hreturned ⊢
      by_cases hset : l.isSet = true
      · rw [if_pos hset]
      · simp [hset] at hreturned
  | expire i => rw [step, expire_eq_none h] at hstep; exact absurd hstep (by simp)
  | resume i =>
    obtain ⟨w, hi, hseen, rfl⟩ := resume_cases h hstep
    obtain ⟨hlt, hget⟩ := List.getElem?_eq_some_iff.mp hi
    constructor
    · intro hm v hv _
      obtain rfl := Option.some_inj.mp (hi.symm.trans hv)
      exact hm { w with phase := .returned } (List.mem_set hlt _) rfl
    · intro hC v hv hreturned
      rcases List.mem_or_eq_of_mem_set hv with hv | rfl
      · exact hl v hv hreturned
      · rcases hseen with hsaw | hreset
        · exact hsaw
        · exact hC w hi hreset

/-! ## Runs -/

theorem coherent_run {actions : List Action} (hrun : run actions = some l) : l.Coherent :=
  exec_invariant Coherent coherent_of_step (fun _ hw ↦ absurd hw List.not_mem_nil) hrun

/-- **When a normal return means that the latch was set.** In every state of a run, whoever has
returned has seen the latch set, exactly if every wait released by `reset` goes on after the next
`set` only. Whatever the run, a wait that was outstanding at a `set` returns normally. -/
theorem run_justified_iff {actions : List Action} (hrun : run actions = some l) :
    ((∀ before m, before <+: actions → run before = some m → m.Justified) ↔
        Along step ResumesAfterSet actions {}) ∧
      ∀ w ∈ l.waits, w.releasedBySet = true →
        w.phase = .completed .operationAborted ∨ w.phase = .returned := by
  constructor
  · have hiff : (∀ before m, before <+: actions → run before = some m →
        m.Coherent ∧ m.Justified) ↔ Along step ResumesAfterSet actions {} :=
      forall_prefix_iff_along
        (fun hI hstep ↦ (and_iff_right (coherent_of_step hI.1 hstep)).trans
          (justified_step_iff hI.1 hI.2 hstep))
        (fun heq hbefore hnone ↦ absurd hnone (step_ne_none_of_exec (heq ▸ hrun) hbefore))
        ⟨fun _ hw ↦ absurd hw List.not_mem_nil, fun _ hw ↦ absurd hw List.not_mem_nil⟩
    rw [← hiff]
    refine forall₄_congr fun before m hprefix hbefore ↦ ?_
    exact (and_iff_right (coherent_run hbefore)).symm
  · intro w hw hset
    cases coherent_run hrun w hw with
    | outstanding hphase hexpiry hnot => simp [hset] at hnot
    | completed hphase => exact .inl hphase
    | returned hphase => exact .inr hphase

/-- Two waiters, one of which `set` finds, and a third one that `reset` releases. -/
def resetReleases : List Action := [.wait, .set, .wait, .reset, .resume 0, .wait, .reset, .resume 2]

theorem resetReleases_unjustified : ∃ m, run resetReleases = some m ∧ ¬m.Justified := by
  have h : (run resetReleases).any (fun m ↦ decide ¬m.Justified) = true := by decide
  simpa only [Option.any_eq_true, decide_eq_true_eq] using h

theorem run_justified_set :
    ∃ m, run [.wait, .wait, .set, .resume 1, .reset, .resume 0] = some m ∧ m.Justified := by
  have hafter : Along step ResumesAfterSet [.wait, .wait, .set, .resume 1, .reset, .resume 0] {} :=
    by decide
  obtain ⟨m, hm⟩ : ∃ m, run [.wait, .wait, .set, .resume 1, .reset, .resume 0] = some m :=
    Option.isSome_iff_exists.mp (by decide)
  exact ⟨m, hm, (run_justified_iff hm).1.mpr hafter _ m (List.prefix_refl _) hm⟩

end AsyncLatch

end Util

end BoostConnector
