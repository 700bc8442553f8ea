import BoostConnector.Ftx.MessageIsolation
import BoostConnector.Util.AsyncQueue

/-!
# The write queue is an `async_queue`

The connector keeps the frames of `write_queue_` and the place of its writer, and its steps take
`push`, `pop` and `clear` as a part of what they do. Here a run of the connector is matched with a
run of `AsyncQueue` that has the writer as its only consumer and makes exactly the calls of the
connector's actions, in their order (`run_writeQueue`). What holds of the queue on its own then
holds of the queue inside the connector: a writer that sleeps sleeps beside an empty queue.
-/

namespace BoostConnector

namespace Ftx

open Transition

open Util (AsyncQueue Pop)

/-! ## The calls of a run -/

/-- The call that an action of the queue stands for. Which waiter a `push` wakes and which call of
`pop` goes on is left to the queue. -/
def QueueCall.of : AsyncQueue.Action Frame → QueueCall
  | .push arg _ => push arg
  | .pop => pop
  | .resume _ => resume
  | .cancel _ => cancel
  | .clear => clear

/-- What the actions of a run call on `write_queue_`, one after the other. -/
def runCalls (args : Args) : List Action → Connector → List QueueCall
  | [], _ => []
  | a :: actions, c => calls args a c ++ (step args a c).elim [] (runCalls args actions)

/-! ## The queue in the state of the connector -/

/-- The `pop` that the writer is in. -/
def Tasks.pop? (t : Tasks) : Option (Pop Frame) :=
  match t.writer with
  | .popping false => some .suspended
  | .popping true => some (.woken t.cancelled)
  | _ => none

def Connector.pop? (c : Connector) : Option (Pop Frame) := c.phase.tasks?.bind Tasks.pop?

theorem Writer.wake_eq {w : Writer} (h : w ≠ .popping false) : w.wake = w := by
  rcases w with _ | (_ | _) | _ | _
  · rfl
  · exact absurd rfl h
  · rfl
  · rfl
  · rfl

namespace Tasks

variable {t : Tasks}

theorem pop?_of_sleeping (h : t.writer = .popping false) : t.pop? = some .suspended := by
  rw [pop?, h]

theorem sleeping_of_pop? (h : t.pop? = some .suspended) : t.writer = .popping false := by
  unfold pop? at h
  split at h
  · assumption
  · simp at h
  · simp at h

theorem writer_ne_of_pop? (h : t.pop? = none) (woken : Bool) : t.writer ≠ .popping woken := by
  rintro hw
  rcases woken
  · simp [pop?, hw] at h
  · simp [pop?, hw] at h

theorem pop?_of_not_isPopping (h : t.writer.isPopping = false) : t.pop? = none := by
  unfold pop?
  split
  · simp_all [Writer.isPopping]
  · simp_all [Writer.isPopping]
  · rfl

theorem pop?_of_ended {o : Outcome} (h : t.writer = .ended o) : t.pop? = none :=
  pop?_of_not_isPopping (by rw [h]; rfl)

end Tasks

/-- `q` is the queue of `c`. It holds the same frames, and the only call of `pop` that has not
completed is the one that the writer is in. A writer that was cancelled does not sleep. -/
structure Serves (q : AsyncQueue Frame) (c : Connector) : Prop where
  queue : q.queue = c.writeQueue
  pops : ∃ completed, (∀ p ∈ completed, p.isSuspended = false ∧ p.isWoken = false) ∧
    q.pops = completed ++ c.pop?.toList
  sleeps : ∀ t ∈ c.phase.tasks?, t.cancelled = true → t.writer ≠ .popping false

namespace Serves

variable {q : AsyncQueue Frame} {c d : Connector} {t : Tasks}

theorem pop?_eq (hphase : d.phase = c.phase) : d.pop? = c.pop? := by
  rw [Connector.pop?, hphase, Connector.pop?]

theorem congr (h : Serves q c) (hqueue : d.writeQueue = c.writeQueue)
    (hphase : d.phase = c.phase) : Serves q d where
  queue := h.queue.trans hqueue.symm
  pops := by
    rw [pop?_eq hphase]
    exact h.pops
  sleeps t ht := h.sleeps t (hphase ▸ ht)

theorem pop?_of_online (hphase : c.phase = .online t) : c.pop? = t.pop? := by
  rw [Connector.pop?, hphase, RunPhase.tasks?, Option.bind_some]

theorem of_online {completed : List (Pop Frame)} (hphase : c.phase = .online t)
    (hqueue : q.queue = c.writeQueue)
    (hcompleted : ∀ p ∈ completed, p.isSuspended = false ∧ p.isWoken = false)
    (hpops : q.pops = completed ++ t.pop?.toList)
    (hsleeps : t.cancelled = true → t.writer ≠ .popping false) : Serves q c where
  queue := hqueue
  pops := ⟨completed, hcompleted, by rw [hpops, pop?_of_online hphase]⟩
  sleeps t' ht' := by
    rw [hphase, RunPhase.tasks?, Option.mem_some_iff] at ht'
    exact ht' ▸ hsleeps

/-- Nobody waits while the writer is in no `pop`. -/
theorem not_any_suspended (h : Serves q c) (hidle : c.pop? ≠ some .suspended) :
    q.pops.any Pop.isSuspended = false := by
  obtain ⟨completed, hcompleted, hpops⟩ := h.pops
  rw [List.any_eq_false, hpops]
  intro p hp
  rcases List.mem_append.mp hp with hp | hp
  · simp [(hcompleted p hp).1]
  · rw [Option.mem_toList] at hp
    rintro hsuspended
    exact hidle (hp.trans (congrArg some (AsyncQueue.eq_suspended hsuspended)))

/-- The last call of `pop` completes. -/
theorem of_completed {completed : List (Pop Frame)} {p : Pop Frame}
    (hphase : c.phase = .online t) (hpop : t.pop? = none) (hqueue : q.queue = c.writeQueue)
    (hcompleted : ∀ p ∈ completed, p.isSuspended = false ∧ p.isWoken = false)
    (hp : p.isSuspended = false ∧ p.isWoken = false) (hpops : q.pops = completed ++ [p]) :
    Serves q c := by
  have hall : ∀ p' ∈ completed ++ [p], p'.isSuspended = false ∧ p'.isWoken = false :=
    List.forall_mem_append.mpr ⟨hcompleted, List.forall_mem_singleton.mpr hp⟩
  refine .of_online hphase hqueue hall ?_ fun _ ↦ Tasks.writer_ne_of_pop? hpop false
  rw [hpops, hpop, Option.toList_none, List.append_nil]

/-- The call of `pop` that the writer is in, by its number. -/
theorem exists_getElem? (h : Serves q c) {p : Pop Frame} (hp : c.pop? = some p) :
    ∃ i, q.pops[i]? = some p ∧ ∀ p', ∃ completed,
      (∀ p ∈ completed, p.isSuspended = false ∧ p.isWoken = false) ∧
        q.pops.set i p' = completed ++ [p'] := by
  obtain ⟨completed, hcompleted, hpops⟩ := h.pops
  rw [hp, Option.toList_some] at hpops
  refine ⟨completed.length, ?_, fun p' ↦ ⟨completed, hcompleted, ?_⟩⟩
  · rw [hpops, List.getElem?_concat_length]
  · rw [hpops, List.set_append_right _ _ (Nat.le_refl _), Nat.sub_self, List.set_cons_zero]

end Serves

/-- Whatever queue serves `c`, it comes to serve `d` by operations that make the calls. -/
def Answered (calls : List QueueCall) (c d : Connector) : Prop :=
  ∀ q, Serves q c → ∃ ops r, ops.map QueueCall.of = calls ∧
    exec AsyncQueue.step ops q = some r ∧ Serves r d

theorem Answered.trans {calls calls' : List QueueCall} {c d e : Connector}
    (h : Answered calls c d) (h' : Answered calls' d e) : Answered (calls ++ calls') c e := by
  intro q hq
  obtain ⟨ops, r, rfl, hr, hserves⟩ := h q hq
  obtain ⟨ops', r', rfl, hr', hserves'⟩ := h' r hserves
  refine ⟨ops ++ ops', r', List.map_append, ?_, hserves'⟩
  rw [exec_append, hr]
  exact hr'

theorem Answered.of_eq {c d : Connector} (hqueue : d.writeQueue = c.writeQueue)
    (hphase : d.phase = c.phase) : Answered [] c d :=
  fun q hq ↦ ⟨[], q, rfl, rfl, hq.congr hqueue hphase⟩

/-! ## The operations -/

namespace Connector

variable {args : Args} {c d : Connector} {t : Tasks}

theorem exists_online_of_pop? {p : Pop Frame} (h : c.pop? = some p) :
    ∃ t, c.phase = .online t ∧ t.pop? = some p := by
  obtain ⟨t, ht, hp⟩ := Option.bind_eq_some_iff.mp h
  exact ⟨t, phase_eq_online ht, hp⟩

/-- A push changes the tasks only if the writer sleeps. -/
theorem mapTasks_wakeWriter_eq (h : c.pop? ≠ some .suspended) :
    c.phase.mapTasks Tasks.wakeWriter = c.phase := by
  rcases hphase : c.phase with _ | _ | t | _ | _
  · rfl
  · rfl
  · rw [RunPhase.mapTasks, Tasks.wakeWriter, Writer.wake_eq]
    rintro hw
    exact h ((Serves.pop?_of_online hphase).trans (Tasks.pop?_of_sleeping hw))
  · rfl
  · rfl

/-- `push` completes the wait of a writer that sleeps. -/
theorem send_answered (c : Connector) (frame : Frame) :
    Answered [.push frame] c (c.send frame) := by
  intro q hq
  by_cases hsleeps : c.pop? = some .suspended
  · obtain ⟨t, hphase, hpop⟩ := exists_online_of_pop? hsleeps
    -- a writer that sleeps has not been cancelled, so the wait is not cancelled either
    have hlive : t.cancelled = false := Bool.eq_false_iff.mpr fun hcancelled ↦
      hq.sleeps t (tasks_of_online hphase) hcancelled (Tasks.sleeping_of_pop? hpop)
    obtain ⟨i, hi, hset⟩ := hq.exists_getElem? hsleeps
    obtain ⟨completed, hcompleted, hpops⟩ := hset (.woken false)
    have hwoken : t.wakeWriter.pop? = some (.woken false) := by
      simp [Tasks.wakeWriter, Tasks.sleeping_of_pop? hpop, Writer.wake, Tasks.pop?, hlive]
    refine ⟨[.push frame (some i)],
      { q with
        queue := q.queue ++ [frame]
        pushed := q.pushed ++ [frame]
        pops := q.pops.set i (.woken false) }, rfl, ?_, ?_⟩
    · simp [AsyncQueue.step, AsyncQueue.push, AsyncQueue.cancelOne, hi, Pop.isSuspended,
        AsyncQueue.setPop]
    · refine .of_online (t := t.wakeWriter) (by rw [phase_send, hphase, RunPhase.mapTasks])
        (congrArg (· ++ [frame]) hq.queue) hcompleted ?_ ?_
      · rw [hpops, hwoken, Option.toList_some]
      · simp [Tasks.wakeWriter, hlive]
  · refine ⟨[.push frame none],
      { q with queue := q.queue ++ [frame], pushed := q.pushed ++ [frame] }, rfl, ?_, ?_⟩
    · simp [AsyncQueue.step, AsyncQueue.push, AsyncQueue.cancelOne, hq.not_any_suspended hsleeps]
    · have hphase : (c.send frame).phase = c.phase := mapTasks_wakeWriter_eq hsleeps
      exact ⟨congrArg (· ++ [frame]) hq.queue, Serves.pop?_eq hphase ▸ hq.pops,
        fun t ht ↦ hq.sleeps t (hphase ▸ ht)⟩

theorem clear_answered (c : Connector) :
    Answered [.clear] c { c with writeQueue := [] } := by
  intro q hq
  obtain ⟨completed, hcompleted, hpops⟩ := hq.pops
  exact ⟨[.clear], { q with queue := [] }, rfl, rfl, rfl, ⟨completed, hcompleted, hpops⟩, hq.sleeps⟩

/-- Nothing happens to the queue as long as the writer is in no `pop`. -/
theorem answered_of_idle (hqueue : d.writeQueue = c.writeQueue) (hc : c.pop? = none)
    (hd : d.pop? = none) : Answered [] c d := by
  intro q hq
  refine ⟨[], q, rfl, rfl, hq.queue.trans hqueue.symm, ?_, fun t ht _ hw ↦ ?_⟩
  · rw [hd, ← hc]
    exact hq.pops
  · have hsleeps := (Serves.pop?_of_online (phase_eq_online ht)).trans (Tasks.pop?_of_sleeping hw)
    exact absurd (hd.symm.trans hsleeps) (by simp)

theorem pop?_of_not_isPopping (h : ∀ t ∈ c.phase.tasks?, t.writer.isPopping = false) :
    c.pop? = none := by
  rw [pop?, Option.bind_eq_none_iff]
  exact fun t ht ↦ Tasks.pop?_of_not_isPopping (h t ht)

/-- The reader or the keep-alive goes on. -/
theorem others_answered (c : Connector) {f : Tasks → Tasks}
    (hf : ∀ t, (f t).writer = t.writer ∧ (f t).cancelled = t.cancelled) :
    Answered [] c (c.modifyTasks f) := by
  rcases c.offline_or_online with ⟨-, hphase⟩ | ⟨t, hphase⟩
  · exact .of_eq rfl (hphase f)
  · intro q hq
    obtain ⟨hwriter, hcancelled⟩ := hf t
    obtain ⟨completed, hcompleted, hpops⟩ := hq.pops
    refine ⟨[], q, rfl, rfl, .of_online (phase_modifyTasks hphase f) hq.queue hcompleted ?_ ?_⟩
    · rw [hpops, Serves.pop?_of_online hphase, Tasks.pop?, Tasks.pop?, hwriter, hcancelled]
    · rw [hwriter, hcancelled]
      exact hq.sleeps t (tasks_of_online hphase)

/-- A cancellation completes the wait of the writer. -/
theorem cancel_answered (c : Connector) {f : Tasks → Tasks}
    (hf : ∀ t, (f t).writer = t.writer.wake ∧ (f t).cancelled = true) :
    Answered (c.taskCalls Tasks.cancelCalls) c (c.modifyTasks f) := by
  rcases c.offline_or_online with ⟨htasks, hphase⟩ | ⟨t, hphase⟩
  · rw [taskCalls, htasks]
    exact .of_eq rfl (hphase f)
  · obtain ⟨hwriter, hcancelled⟩ := hf t
    have hphase' := phase_modifyTasks hphase f
    rw [taskCalls_of_online hphase, Tasks.cancelCalls]
    rcases hw : t.writer with _ | woken | frame | o
    case popping =>
      -- it sleeps or has been woken
      intro q hq
      obtain ⟨p, hpop, hopen⟩ : ∃ p, t.pop? = some p ∧ (p = .suspended ∨ ∃ b, p = .woken b) := by
        rcases woken
        · exact ⟨.suspended, Tasks.pop?_of_sleeping hw, .inl rfl⟩
        · exact ⟨.woken t.cancelled, by rw [Tasks.pop?, hw], .inr ⟨_, rfl⟩⟩
      obtain ⟨i, hi, hset⟩ := hq.exists_getElem? ((Serves.pop?_of_online hphase).trans hpop)
      obtain ⟨completed, hcompleted, hpops⟩ := hset (.woken true)
      refine ⟨[.cancel i], q.setPop i (.woken true), rfl, ?_,
        .of_online hphase' hq.queue hcompleted ?_ ?_⟩
      · rcases hopen with rfl | ⟨b, rfl⟩
        · simp [AsyncQueue.step, AsyncQueue.cancel, hi]
        · simp [AsyncQueue.step, AsyncQueue.cancel, hi]
      · rw [AsyncQueue.setPop, hpops, Tasks.pop?, hwriter, hw, Writer.wake, hcancelled,
          Option.toList_some]
      · simp [hwriter, hw, Writer.wake]
    all_goals
      -- the writer is in no `pop`
      have hidle : t.writer.isPopping = false := by
        rw [hw]
        rfl
      have hidle' : (f t).writer.isPopping = false := by
        rw [hwriter, hw]
        rfl
      exact answered_of_idle rfl
        ((Serves.pop?_of_online hphase).trans (Tasks.pop?_of_not_isPopping hidle))
        ((Serves.pop?_of_online hphase').trans (Tasks.pop?_of_not_isPopping hidle'))

theorem endWriter_answered (hphase : c.phase = .online t) (hwriter : t.writer.isPopping = false) :
    Answered [] c (c.modifyTasks fun _ ↦ t.endWriter .threw) := by
  refine answered_of_idle rfl
    ((Serves.pop?_of_online hphase).trans (Tasks.pop?_of_not_isPopping hwriter)) ?_
  rw [Serves.pop?_of_online (phase_modifyTasks hphase _)]
  exact Tasks.pop?_of_ended rfl

/-- A new call of `pop`. -/
theorem pop_answered (hphase : c.phase = .online t) (hwriter : t.writer.isPopping = false)
    (hlive : t.cancelled = false) : Answered [.pop] c (c.pop t) := by
  -- the calls that the queue knows of have all been completed
  intro q hq
  obtain ⟨completed, hcompleted, hpops⟩ := hq.pops
  rw [Serves.pop?_of_online hphase, Tasks.pop?_of_not_isPopping hwriter, Option.toList_none,
    List.append_nil] at hpops
  rcases hqueue : c.writeQueue with _ | ⟨frame, rest⟩
  · have hd : c.pop t = c.modifyTasks fun _ ↦ { t with writer := .popping false } := by
      simp only [pop, hqueue, hlive, Bool.false_eq_true, if_false]
    rw [hd]
    refine ⟨[.pop], { q with pops := q.pops ++ [.suspended] }, rfl, ?_,
      .of_online (phase_modifyTasks hphase _) hq.queue hcompleted ?_ ?_⟩
    · simp [AsyncQueue.step, AsyncQueue.pop, AsyncQueue.proceed, hq.queue, hqueue]
    · rw [hpops]
      rfl
    · simp [hlive]
  · have hd : c.pop t = { c with writeQueue := rest }.modifyTasks
        fun _ ↦ { t with writer := .writing frame } := by
      simp only [pop, hqueue, hlive, Bool.false_eq_true, if_false]
    rw [hd]
    refine ⟨[.pop], { q with
      queue := rest
      removed := q.removed ++ [frame]
      pops := q.pops ++ [.returned frame] }, rfl, ?_,
      .of_completed (phase_modifyTasks hphase _) rfl rfl hcompleted (p := .returned frame)
        ⟨rfl, rfl⟩ (congrArg (· ++ [.returned frame]) hpops)⟩
    simp [AsyncQueue.step, AsyncQueue.pop, AsyncQueue.proceed, hq.queue, hqueue]

/-- A woken `pop` goes on, and one that was cancelled looks into the queue before it throws. -/
theorem resume_answered (hphase : c.phase = .online t) (hw : t.writer = .popping true) :
    Answered [.resume] c (c.pop t) := by
  intro q hq
  have hpop : t.pop? = some (.woken t.cancelled) := by rw [Tasks.pop?, hw]
  obtain ⟨i, hi, hset⟩ := hq.exists_getElem? ((Serves.pop?_of_online hphase).trans hpop)
  rcases hqueue : c.writeQueue with _ | ⟨frame, rest⟩
  · by_cases hcancelled : t.cancelled = true
    · obtain ⟨completed, hcompleted, hpops⟩ := hset .threw
      have hd : c.pop t = c.modifyTasks fun _ ↦ t.endWriter .threw := by
        simp only [pop, hqueue, hcancelled, if_true]
      rw [hd]
      refine ⟨[.resume i], { q with pops := q.pops.set i .threw }, rfl, ?_, .of_completed
        (phase_modifyTasks hphase _) rfl hq.queue hcompleted (p := .threw) ⟨rfl, rfl⟩ hpops⟩
      simp [AsyncQueue.step, AsyncQueue.resume, AsyncQueue.proceed, hi, hcancelled, hq.queue,
        hqueue, AsyncQueue.setPop]
    · obtain ⟨completed, hcompleted, hpops⟩ := hset .suspended
      have hd : c.pop t = c.modifyTasks fun _ ↦ { t with writer := .popping false } := by
        simp only [pop, hqueue, hcancelled, Bool.false_eq_true, if_false]
      rw [hd]
      refine ⟨[.resume i], { q with pops := q.pops.set i .suspended }, rfl, ?_, .of_online
        (phase_modifyTasks hphase _) hq.queue hcompleted hpops fun h ↦ absurd h hcancelled⟩
      simp [AsyncQueue.step, AsyncQueue.resume, AsyncQueue.proceed, hi, hcancelled, hq.queue,
        hqueue, AsyncQueue.setPop]
  · obtain ⟨completed, hcompleted, hpops⟩ := hset (.returned frame)
    have hstep : exec AsyncQueue.step [.resume i] q = some { q with
        queue := rest
        removed := q.removed ++ [frame]
        pops := q.pops.set i (.returned frame) } := by
      simp [AsyncQueue.step, AsyncQueue.resume, AsyncQueue.proceed, hi, hq.queue, hqueue,
        AsyncQueue.setPop]
    -- the frame is removed in any case, and lost if the writer has been cancelled
    have hpop' : (if t.cancelled then t.endWriter .threw
        else { t with writer := .writing frame }).pop? = none := by
      split_ifs <;> rfl
    have hphase' : (c.pop t).phase = .online (if t.cancelled then t.endWriter .threw
        else { t with writer := .writing frame }) := by
      simp only [pop, hqueue]
      exact phase_modifyTasks (c := { c with writeQueue := rest }) hphase _
    have hqueue' : (c.pop t).writeQueue = rest := by simp only [pop, hqueue, modifyTasks]
    exact ⟨_, _, rfl, hstep, .of_completed hphase' hpop' hqueue'.symm hcompleted ⟨rfl, rfl⟩ hpops⟩

end Connector

/-! ## Steps -/

theorem QueueStep.answered {calls : List QueueCall} {c d : Connector} (h : QueueStep calls c d) :
    Answered calls c d := by
  induction h with
  | quiet hqueue hphase => exact .of_eq hqueue hphase
  | push c frame => exact c.send_answered frame
  | clear c => exact c.clear_answered
  | others c hf => exact c.others_answered hf
  | cancel c hf => exact c.cancel_answered hf
  | pop hphase hwriter hlive => exact Connector.pop_answered hphase hwriter hlive
  | resume hphase hwriter => exact Connector.resume_answered hphase hwriter
  | endWriter hphase hwriter => exact Connector.endWriter_answered hphase hwriter
  | turn hqueue hc hd =>
    exact Connector.answered_of_idle hqueue (Connector.pop?_of_not_isPopping hc)
      (Connector.pop?_of_not_isPopping hd)
  | trans h h' ih ih' => exact ih.trans ih'

/-- Every step of the connector is answered by operations of the queue, which make its calls. -/
theorem step_answered {args : Args} {a : Action} {c d : Connector} (h : step args a c = some d) :
    Answered (calls args a c) c d := (Connector.step_queueStep h).answered

/-! ## Runs -/

theorem serves_fresh : Serves {} {} where
  queue := rfl
  pops := ⟨[], List.forall_mem_nil _, rfl⟩
  sleeps t ht := by simp [RunPhase.tasks?] at ht

theorem exec_answered_calls {args : Args} {actions : List Action} {c d : Connector}
    (hrun : exec (step args) actions c = some d) : Answered (runCalls args actions c) c d := by
  induction actions generalizing c with
  | nil =>
    rw [exec_nil, Option.some_inj] at hrun
    exact hrun ▸ .of_eq rfl rfl
  | cons a actions ih =>
    rw [exec_cons, Option.bind_eq_some_iff] at hrun
    obtain ⟨e, he, hrun⟩ := hrun
    rw [runCalls, he, Option.elim_some]
    exact (step_answered he).trans (ih hrun)

/-- Every run of the connector is a run of its queue, with the same calls. -/
theorem run_serves {args : Args} {actions : List Action} {c : Connector}
    (hrun : run args actions = some c) :
    ∃ ops q, AsyncQueue.run ops = some q ∧ ops.map QueueCall.of = runCalls args actions {} ∧
      Serves q c := by
  obtain ⟨ops, q, hcalls, hq, hserves⟩ := exec_answered_calls hrun {} serves_fresh
  exact ⟨ops, q, hq, hcalls, hserves⟩

/-- A writer that sleeps sleeps beside an empty queue. -/
theorem Serves.writeQueue_eq_nil {ops : List (AsyncQueue.Action Frame)} {q : AsyncQueue Frame}
    {c : Connector} {t : Tasks} (hserves : Serves q c) (hq : AsyncQueue.run ops = some q)
    (ht : t ∈ c.phase.tasks?) (hw : t.writer = .popping false) : c.writeQueue = [] := by
  obtain ⟨completed, hcompleted, hpops⟩ := hserves.pops
  rw [Serves.pop?_of_online (Connector.phase_eq_online ht), Tasks.pop?_of_sleeping hw,
    Option.toList_some] at hpops
  -- nobody is on the way to a frame, so there is none
  have hnobody : q.pops.countP Pop.isWoken = 0 := by
    rw [hpops, List.countP_eq_zero]
    intro p hp
    rcases List.mem_append.mp hp with hp | hp
    · simp [(hcompleted p hp).2]
    · rw [List.mem_singleton.mp hp]
      simp [Pop.isWoken]
  have hlength := AsyncQueue.run_awake hq (by rw [hpops]; simp)
  rw [hnobody, Nat.le_zero, List.length_eq_zero_iff, hserves.queue] at hlength
  exact hlength

theorem sleeping_writer {args : Args} {actions : List Action} {c : Connector} {t : Tasks}
    (hrun : run args actions = some c) (ht : t ∈ c.phase.tasks?)
    (hw : t.writer = .popping false) : c.writeQueue = [] ∧ t.cancelled = false := by
  obtain ⟨ops, q, hq, -, hserves⟩ := run_serves hrun
  exact ⟨hserves.writeQueue_eq_nil hq ht hw,
    Bool.eq_false_iff.mpr fun hcancelled ↦ hserves.sleeps t ht hcancelled hw⟩

/-- **The write queue is an `async_queue` with one consumer.** Whatever the run, it is served by a
run of the queue that makes the calls of its actions, and its writer never sleeps beside a frame. -/
theorem run_writeQueue {args : Args} {actions : List Action} {c : Connector}
    (hrun : run args actions = some c) :
    (∃ ops q, AsyncQueue.run ops = some q ∧ ops.map QueueCall.of = runCalls args actions {} ∧
        Serves q c) ∧
      ∀ t ∈ c.phase.tasks?, t.writer = .popping false → c.writeQueue = [] ∧ t.cancelled = false :=
  ⟨run_serves hrun, fun _ ht hw ↦ sleeping_writer hrun ht hw⟩

/-- A writer without a login frame sleeps until somebody sends. -/
def sendLater : List Action :=
  [.reconnect, .connected true [], .beginWriter, .send (ascii "x"), .resumeWriter, .written true]

theorem run_writeQueue_sendLater :
    ∃ c, run {} sendLater = some c ∧ c.writeQueue = [] ∧ ∃ ops q, AsyncQueue.run ops = some q ∧
      ops.map QueueCall.of = [.clear, .pop, .push (.text (ascii "x")), .resume, .pop] ∧
        Serves q c :=
  ⟨_, rfl, rfl, (@run_writeQueue {} sendLater _ rfl).1⟩

end Ftx

end BoostConnector
