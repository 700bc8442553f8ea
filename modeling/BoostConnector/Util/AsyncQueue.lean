import BoostConnector.Collections.ListPool
import BoostConnector.Transition.Run
import Mathlib.Data.List.Basic

/-!
# The asynchronous queue

`async_queue` with any number of producers and consumers on one executor. `push` completes one
outstanding wait on the timer `cv_`, and the waiter goes on in a later step; by then a fresh `pop`
may have taken the element, and the waiter waits again. A waiter that was cancelled looks into the
queue once more before it throws.

Elements are neither lost, doubled nor reordered (`run_fifo`), and no consumer sleeps beside an
element that nobody is on the way to (`run_awake`).
-/

namespace BoostConnector

namespace Util

open Collections Transition

/-! ## State -/

/-- A call of `pop`: suspended in `cv_.async_wait`, woken but not resumed yet, or completed. -/
inductive Pop (α : Type*) where
  | suspended
  | woken (cancelled : Bool)
  | returned (result : α)
  | threw

namespace Pop

variable {α : Type*}

def isSuspended : Pop α → Bool
  | suspended => true
  | _ => false

def isWoken : Pop α → Bool
  | woken _ => true
  | _ => false

@[simp] theorem isWoken_suspended : (suspended : Pop α).isWoken = false := rfl

@[simp] theorem isWoken_woken (cancelled : Bool) : (woken cancelled : Pop α).isWoken = true := rfl

@[simp] theorem isWoken_returned (result : α) : (returned result).isWoken = false := rfl

def result? : Pop α → Option α
  | returned result => some result
  | _ => none

/-! The waiters on their way, as calls of `pop` are woken, return and are cancelled. -/

variable {pops : List (Pop α)} {i : ℕ}

theorem suspended_not_mem (h : pops.any isSuspended = false) : .suspended ∉ pops := by
  intro hmem
  rw [List.any_eq_false] at h
  exact h _ hmem rfl

theorem suspended_mem_of_mem_set {p : Pop α} (hp : .suspended ≠ p)
    (h : .suspended ∈ pops.set i p) : .suspended ∈ pops := by
  rcases List.mem_or_eq_of_mem_set h with hmem | heq
  · exact hmem
  · exact absurd heq hp

theorem countP_wake (hi : pops[i]? = some .suspended) :
    (pops.set i (.woken false)).countP isWoken = pops.countP isWoken + 1 := by
  have hcount := countP_set_add (p := isWoken) hi (.woken false)
  simpa using hcount

theorem countP_return {cancelled : Bool} (hi : pops[i]? = some (.woken cancelled)) (result : α) :
    (pops.set i (.returned result)).countP isWoken + 1 = pops.countP isWoken := by
  have hcount := countP_set_add (p := isWoken) hi (.returned result)
  simpa using hcount

theorem countP_le_cancel {p : Pop α} (hi : pops[i]? = some p) :
    pops.countP isWoken ≤ (pops.set i (.woken true)).countP isWoken := by
  have hcount := countP_set_add (p := isWoken) hi (.woken true)
  simp only [isWoken_woken, if_true] at hcount
  split_ifs at hcount
  · omega
  · omega

end Pop

/-- `async_queue` with the calls of `pop` in the order in which they were made. `pushed` and
`removed` are the histories of the elements that were pushed and removed. -/
structure AsyncQueue (α : Type*) where
  queue : List α := []
  pops : List (Pop α) := []
  pushed : List α := []
  removed : List α := []

namespace AsyncQueue

variable {α : Type*} (q : AsyncQueue α)

/-! ## Operations -/

def setPop (i : ℕ) (p : Pop α) : AsyncQueue α := { q with pops := q.pops.set i p }

/-- `cv_.cancel_one()` completes one outstanding wait if there is one. -/
def cancelOne : Option ℕ → Option (AsyncQueue α)
  | some i => do
    let p ← q.pops[i]?
    if p.isSuspended then some (q.setPop i (.woken false)) else none
  | none => if q.pops.any Pop.isSuspended then none else some q

def push (arg : α) (wake : Option ℕ) : Option (AsyncQueue α) :=
  { q with queue := q.queue ++ [arg], pushed := q.pushed ++ [arg] }.cancelOne wake

/-- The loop of `pop` up to its next suspension point. The `co_await` of a cancelled coroutine
throws. -/
def proceed (cancelled : Bool) : Pop α × AsyncQueue α :=
  match q.queue with
  | [] => (if cancelled then .threw else .suspended, q)
  | front :: rest => (.returned front, { q with queue := rest, removed := q.removed ++ [front] })

/-- A new call of `pop`. -/
def pop : AsyncQueue α :=
  let (p, q) := q.proceed false
  { q with pops := q.pops ++ [p] }

/-- A woken waiter is resumed. -/
def resume (i : ℕ) : Option (AsyncQueue α) := do
  match ← q.pops[i]? with
  | .woken cancelled =>
    let (p, q) := q.proceed cancelled
    some (q.setPop i p)
  | _ => none

/-- The coroutine in a `pop` that has not completed is cancelled. -/
def cancel (i : ℕ) : Option (AsyncQueue α) := do
  match ← q.pops[i]? with
  | .suspended | .woken _ => some (q.setPop i (.woken true))
  | _ => none

def clear : AsyncQueue α := { q with queue := [] }

/-! ## Steps -/

inductive Action (α : Type*) where
  | push (arg : α) (wake : Option ℕ)
  | pop
  | resume (i : ℕ)
  | cancel (i : ℕ)
  | clear

/-- The argument of a `push`. -/
def Action.arg? : Action α → Option α
  | .push arg _ => some arg
  | .pop | .resume _ | .cancel _ | .clear => none

def step : Action α → AsyncQueue α → Option (AsyncQueue α)
  | .push arg wake, q => q.push arg wake
  | .pop, q => some q.pop
  | .resume i, q => q.resume i
  | .cancel i, q => q.cancel i
  | .clear, q => some q.clear

def run (actions : List (Action α)) : Option (AsyncQueue α) := exec step actions {}

/-- Each constructor is one way a step can change the queue. -/
inductive Move (q : AsyncQueue α) : Action α → AsyncQueue α → Prop
  | pushIdle {arg : α} (hidle : q.pops.any Pop.isSuspended = false) :
      Move q (.push arg none) { q with queue := q.queue ++ [arg], pushed := q.pushed ++ [arg] }
  | pushWake {arg : α} {i : ℕ} (hi : q.pops[i]? = some .suspended) :
      Move q (.push arg (some i))
        { q with
          queue := q.queue ++ [arg]
          pushed := q.pushed ++ [arg]
          pops := q.pops.set i (.woken false) }
  | popTake {front : α} {rest : List α} (hqueue : q.queue = front :: rest) :
      Move q .pop
        { q with
          queue := rest
          removed := q.removed ++ [front]
          pops := q.pops ++ [.returned front] }
  | popWait (hqueue : q.queue = []) : Move q .pop { q with pops := q.pops ++ [.suspended] }
  | resumeTake {i : ℕ} {cancelled : Bool} {front : α} {rest : List α}
      (hi : q.pops[i]? = some (.woken cancelled)) (hqueue : q.queue = front :: rest) :
      Move q (.resume i)
        { q with
          queue := rest
          removed := q.removed ++ [front]
          pops := q.pops.set i (.returned front) }
  | resumeWait {i : ℕ} {p : Pop α} {cancelled : Bool} (hi : q.pops[i]? = some (.woken cancelled))
      (hqueue : q.queue = []) (hp : p.result? = none) :
      Move q (.resume i) { q with pops := q.pops.set i p }
  | cancel {i : ℕ} {p : Pop α} (hi : q.pops[i]? = some p) (hp : p.result? = none) :
      Move q (.cancel i) { q with pops := q.pops.set i (.woken true) }
  | clear : Move q .clear { q with queue := [] }

variable {q} {r : AsyncQueue α} {a : Action α}

theorem eq_suspended {p : Pop α} (h : p.isSuspended = true) : p = .suspended := by
  cases p <;> simp_all [Pop.isSuspended]

theorem proceed_nil (h : q.queue = []) (cancelled : Bool) :
    q.proceed cancelled = (if cancelled then .threw else .suspended, q) := by rw [proceed, h]

theorem proceed_cons {front : α} {rest : List α} (h : q.queue = front :: rest) (cancelled : Bool) :
    q.proceed cancelled
      = (.returned front, { q with queue := rest, removed := q.removed ++ [front] }) := by
  rw [proceed, h]

/-- **What a step can do.** -/
theorem step_move (h : step a q = some r) : Move q a r := by
  cases a with
  | push arg wake =>
    cases wake with
    | none =>
      simp only [step, push, cancelOne] at h
      split_ifs at h with hidle
      obtain rfl := Option.some_inj.mp h
      exact .pushIdle (Bool.eq_false_iff.mpr hidle)
    | some i =>
      obtain ⟨p, hp, h⟩ := Option.bind_eq_some_iff.mp h
      split_ifs at h with hsuspended
      obtain rfl := Option.some_inj.mp h
      obtain rfl := eq_suspended hsuspended
      exact .pushWake hp
  | pop =>
    obtain rfl := Option.some_inj.mp h
    cases hqueue : q.queue with
    | nil =>
      rw [pop, proceed_nil hqueue]
      exact .popWait hqueue
    | cons front rest =>
      rw [pop, proceed_cons hqueue]
      exact .popTake hqueue
  | resume i =>
    obtain ⟨p, hp, h⟩ := Option.bind_eq_some_iff.mp h
    cases p with
    | woken cancelled =>
      dsimp only at h
      cases hqueue : q.queue with
      | nil =>
        rw [proceed_nil hqueue, Option.some_inj] at h
        subst h
        refine .resumeWait hp hqueue ?_
        split_ifs <;> rfl
      | cons front rest =>
        rw [proceed_cons hqueue, Option.some_inj] at h
        subst h
        exact .resumeTake hp hqueue
    | _ => exact absurd h (by simp)
  | cancel i =>
    obtain ⟨p, hp, h⟩ := Option.bind_eq_some_iff.mp h
    cases p with
    | suspended => exact Option.some_inj.mp h ▸ .cancel hp rfl
    | woken cancelled => exact Option.some_inj.mp h ▸ .cancel hp rfl
    | returned result => exact absurd h (by simp)
    | threw => exact absurd h (by simp)
  | clear => exact Option.some_inj.mp h ▸ .clear

/-! ## Every element once, in order -/

/-- What was removed and what is still queued is what was pushed, in push order, and what was
removed is what the calls of `pop` have returned. -/
structure Fifo (q : AsyncQueue α) : Prop where
  order : q.removed ++ q.queue = q.pushed
  returned : (q.pops.filterMap Pop.result?).Perm q.removed

/-- A list around one of its elements. -/
theorem exists_around {β : Type*} {l : List β} {i : ℕ} {x : β} (h : l[i]? = some x) (y : β) :
    ∃ before after, l = before ++ x :: after ∧ l.set i y = before ++ y :: after := by
  obtain ⟨hlt, rfl⟩ := List.getElem?_eq_some_iff.mp h
  refine ⟨l.take i, l.drop (i + 1), ?_, ?_⟩
  · rw [List.getElem_cons_drop, List.take_append_drop]
  · rw [List.set_eq_take_append_cons_drop, if_pos hlt]

theorem filterMap_set_of_none {i : ℕ} {p p' : Pop α} {pops : List (Pop α)}
    (hi : pops[i]? = some p) (hp : p.result? = none) (hp' : p'.result? = none) :
    (pops.set i p').filterMap Pop.result? = pops.filterMap Pop.result? := by
  obtain ⟨before, after, hpops, hset⟩ := exists_around hi p'
  rw [hset, hpops, List.filterMap_append, List.filterMap_append, List.filterMap_cons_none hp,
    List.filterMap_cons_none hp']

theorem filterMap_set_returned {i : ℕ} {p : Pop α} {pops : List (Pop α)} {x : α}
    (hi : pops[i]? = some p) (hp : p.result? = none) :
    ((pops.set i (.returned x)).filterMap Pop.result?).Perm
      (pops.filterMap Pop.result? ++ [x]) := by
  obtain ⟨before, after, hpops, hset⟩ := exists_around hi (.returned x)
  rw [hset, hpops, List.filterMap_append, List.filterMap_append, List.filterMap_cons_none hp,
    List.filterMap_cons_some (show (Pop.returned x).result? = some x from rfl)]
  rw [List.append_assoc]
  exact (List.perm_append_singleton x _).symm.append_left _

theorem Move.fifo (h : Move q a r) (hq : q.Fifo) (ha : a ≠ .clear) : r.Fifo := by
  cases h with
  | pushIdle hidle =>
    refine ⟨?_, hq.returned⟩
    rw [← List.append_assoc, hq.order]
  | pushWake hi =>
    refine ⟨?_, ?_⟩
    · rw [← List.append_assoc, hq.order]
    · rw [filterMap_set_of_none hi rfl rfl]
      exact hq.returned
  | popTake hqueue =>
    refine ⟨?_, ?_⟩
    · rw [List.append_assoc, List.singleton_append, ← hqueue, hq.order]
    · rw [List.filterMap_append]
      exact hq.returned.append_right _
  | popWait hqueue =>
    refine ⟨hq.order, ?_⟩
    rw [List.filterMap_append, List.filterMap_cons_none rfl, List.filterMap_nil, List.append_nil]
    exact hq.returned
  | resumeTake hi hqueue =>
    refine ⟨?_, ?_⟩
    · rw [List.append_assoc, List.singleton_append, ← hqueue, hq.order]
    · exact (filterMap_set_returned hi rfl).trans (hq.returned.append_right _)
  | resumeWait hi hqueue hp =>
    refine ⟨hq.order, ?_⟩
    rw [filterMap_set_of_none hi rfl hp]
    exact hq.returned
  | cancel hi hp =>
    refine ⟨hq.order, ?_⟩
    rw [filterMap_set_of_none hi hp rfl]
    exact hq.returned
  | clear => exact absurd rfl ha

/-! ## No wake-up is lost -/

/-- If somebody sleeps there are as many waiters on their way as there are elements. -/
def Awake (q : AsyncQueue α) : Prop :=
  .suspended ∈ q.pops → q.queue.length ≤ q.pops.countP Pop.isWoken

theorem Move.awake (h : Move q a r) (hq : q.Awake) : r.Awake := by
  intro hsleeps
  cases h with
  | pushIdle hidle => exact absurd hsleeps (Pop.suspended_not_mem hidle)
  | pushWake hi =>
    have hle := hq (List.mem_of_getElem? hi)
    rw [Pop.countP_wake hi, List.length_append, List.length_singleton]
    exact Nat.add_le_add_right hle 1
  | popTake hqueue =>
    have hmem : .suspended ∈ q.pops := by simpa using hsleeps
    have hle := hq hmem
    rw [hqueue, List.length_cons] at hle
    simp only [List.countP_append]
    omega
  | popWait hqueue => simp [hqueue]
  | @resumeTake i cancelled front rest hi hqueue =>
    have hle := hq (Pop.suspended_mem_of_mem_set (by simp) hsleeps)
    rw [hqueue, List.length_cons, ← Pop.countP_return hi front] at hle
    exact Nat.le_of_add_le_add_right hle
  | resumeWait hi hqueue hp => simp [hqueue]
  | cancel hi hp =>
    have hle := hq (Pop.suspended_mem_of_mem_set (by simp) hsleeps)
    exact Nat.le_trans hle (Pop.countP_le_cancel hi)
  | clear => exact Nat.zero_le _

/-! ## Runs -/

theorem Move.pushed (h : Move q a r) : r.pushed = q.pushed ++ a.arg?.toList := by
  cases h with
  | pushIdle hidle => rfl
  | pushWake hi => rfl
  | _ => exact (List.append_nil _).symm

/-- The history of the pushes is what the actions push. -/
theorem exec_pushed {actions : List (Action α)} {q r : AsyncQueue α}
    (hrun : exec step actions q = some r) :
    r.pushed = q.pushed ++ actions.filterMap Action.arg? := by
  induction actions generalizing q with
  | nil =>
    rw [exec_nil, Option.some_inj] at hrun
    rw [hrun, List.filterMap_nil, List.append_nil]
  | cons a actions ih =>
    rw [exec_cons, Option.bind_eq_some_iff] at hrun
    obtain ⟨s, hs, hrun⟩ := hrun
    rw [ih hrun, (step_move hs).pushed, List.append_assoc]
    cases a <;> rfl

theorem run_fifo {actions : List (Action α)} {q : AsyncQueue α} (hclear : .clear ∉ actions)
    (hrun : run actions = some q) : q.Fifo := by
  have hC : Along step (fun a _ ↦ a ≠ .clear) actions ({} : AsyncQueue α) := by
    refine along_of_forall fun before a after r heq _ ↦ ?_
    rintro rfl
    exact hclear (heq ▸ by simp)
  exact exec_invariant_of_along _ Fifo (fun hq ha h ↦ (step_move h).fifo hq ha)
    ⟨rfl, List.Perm.refl _⟩ hC hrun

theorem run_awake {actions : List (Action α)} {q : AsyncQueue α} (hrun : run actions = some q) :
    q.Awake :=
  exec_invariant Awake (fun hq h ↦ (step_move h).awake hq) (fun h ↦ absurd h List.not_mem_nil) hrun

/-- **The queue delivers every element once and in order, and loses no wake-up**, whatever the
interleaving. -/
theorem run_delivers {actions : List (Action α)} {q : AsyncQueue α} (hclear : .clear ∉ actions)
    (hrun : run actions = some q) :
    (q.pushed = actions.filterMap Action.arg? ∧ q.removed ++ q.queue = q.pushed ∧
        (q.pops.filterMap Pop.result?).Perm q.removed) ∧
      (q.queue ≠ [] → .suspended ∈ q.pops → q.queue.length ≤ q.pops.countP Pop.isWoken) := by
  obtain ⟨horder, hreturned⟩ := run_fifo hclear hrun
  have hpushed : q.pushed = actions.filterMap Action.arg? := exec_pushed hrun
  exact ⟨⟨hpushed, horder, hreturned⟩, fun _ hsleeps ↦ run_awake hrun hsleeps⟩

/-- Two consumers wait, and one of them is woken. A third one takes its element, and the woken one
waits again until it is cancelled. -/
def overtaken : List (Action ℕ) :=
  [.pop, .pop, .push 7 (some 0), .pop, .resume 0, .push 8 (some 1), .cancel 0, .resume 0, .resume 1,
    .pop, .push 9 (some 3)]

theorem run_delivers_overtaken :
    ∃ q, run overtaken = some q ∧ q.removed = [7, 8] ∧ q.pushed = [7, 8, 9] ∧
      q.removed ++ q.queue = q.pushed := by
  obtain ⟨hpushed, horder, -⟩ := (@run_delivers ℕ overtaken _ (by simp [overtaken]) rfl).1
  exact ⟨_, rfl, rfl, hpushed, horder⟩

end AsyncQueue

end Util

end BoostConnector
