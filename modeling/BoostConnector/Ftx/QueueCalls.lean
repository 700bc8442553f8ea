import BoostConnector.Ftx.TasksTogether

/-!
# The calls on the write queue

What the functions of the connector call on `write_queue_`, in the order of the source: the handlers
of the subscriptions, `send` and `run_ping_pong` push, `reconnect` clears the queue and pushes the
login frame, `ftx_write_state` pops, and a cancellation reaches the `pop` it is in. `calls` says
this of every action, and each step does to the queue what its calls do to it (`step_writeQueue`).
-/

namespace BoostConnector

namespace Ftx

/-! ## Calls -/

/-- A call on `write_queue_`. A `pop` looks into the queue when it is called and after every wait
(`resume`). -/
inductive QueueCall where
  | push (arg : Frame)
  | clear
  | pop
  | resume
  /-- The coroutine in a `pop` is cancelled. -/
  | cancel
  deriving Repr

/-- What the call does to the elements of the queue. -/
def QueueCall.apply (queue : List Frame) : QueueCall → List Frame
  | push arg => queue ++ [arg]
  | clear => []
  | pop | resume => queue.tail
  | cancel => queue

/-! ## What is pushed -/

def Effect.pushes : Effect → List Frame
  | send payload => [.json payload]
  | drop | assertUp | assertNotClosed => []

namespace Subscription

variable (s : Subscription)

/-- What the machine pushes when it processes the event. -/
def pushes (e : ChannelEvent) : List Frame := (s.sm.processEvent e).2.flatMap Effect.pushes

def closePushes : List Frame := s.sm.close.2.flatMap Effect.pushes

/-- From `co_await stop_latch_.wait()` on. -/
def stopPushes : List Frame := if s.stopLatch then s.closePushes else []

end Subscription

namespace Connector

variable (c : Connector)

def handlePushes (i : ℕ) (e : ChannelEvent) : List Frame :=
  match c.subs[i]? with
  | some s => s.pushes e
  | none => []

def tellPushes (e : ChannelEvent) (index : ChannelMarketPair) : List Frame :=
  match c.channelStates.lookup index with
  | some cs =>
    if cs.acquired then
      match cs.onEvent with
      | some i => c.handlePushes i e
      | none => []
    else []
  | none => []

def broadcastPushes (e : ChannelEvent) : List ChannelMarketPair → Connector → List Frame
  | [], _ => []
  | index :: order, c => c.tellPushes e index ++ broadcastPushes e order (c.tell e index)

def notifyPushes (s : ConnectionState) (order : List ChannelMarketPair) : List Frame :=
  broadcastPushes s.event order (c.announce s)

def messagePushes : Message → List Frame
  | .binary => []
  | .text jframe? =>
    match jframe? with
    | none => []
    | some jframe =>
      match route jframe with
      | some (.channel index) => c.tellPushes (.response jframe) index
      | some .pong | none => []

/-- From `state.acquired = true` on. -/
def acquirePushes (s : Subscription) : List Frame :=
  if c.isUp then s.pushes .connectionUp ++ (s.given .connectionUp).stopPushes else s.stopPushes

def resumePushes (i : ℕ) : List Frame :=
  match c.subs[i]? with
  | none => []
  | some s =>
    match s.pc with
    | .spawned => if (c.locateChannel s.topic).1.acquired then [] else c.acquirePushes s
    | .waiting .woken => c.acquirePushes s
    | .awaitingStop => s.closePushes
    | .waiting _ | .awaitingClosed | .left => []

end Connector

/-- `{"op": "ping"}` -/
def pingFrame : Frame := .text (ascii "\x7b\"op\": \"ping\"\x7d")

/-! ## The calls of an action -/

/-- The writer is in a `pop`. -/
def Writer.isPopping : Writer → Bool
  | popping _ => true
  | spawned | writing _ | ended _ => false

namespace Tasks

variable (t : Tasks)

/-- A cancellation reaches the writer in its `pop`. -/
def cancelCalls : List QueueCall := if t.writer.isPopping then [.cancel] else []

/-- The exception of a cancelled reader cancels the other tasks. -/
def startReadCalls : List QueueCall := if t.cancelled then t.cancelCalls else []

/-- `co_await write_queue.pop()`, which throws at once where the writer has been cancelled. -/
def startPopCalls : List QueueCall := if t.cancelled then [] else [.pop]

end Tasks

namespace Connector

variable (c : Connector)

/-- The calls that depend on the tasks of the connection. -/
def taskCalls (f : Tasks → List QueueCall) : List QueueCall := c.phase.tasks?.elim [] f

/-- `write_queue_.clear()`, the login frame and what the handlers push when the connection is
announced. -/
def connectedCalls (args : Args) (ok : Bool) (order : List ChannelMarketPair) : List QueueCall :=
  .clear :: (if args.hasAuth then [.push .login] else []) ++
    ((c.opened args ok).notifyPushes .up order).map .push

def joinCalls (order : List ChannelMarketPair) (t : Tasks) : List QueueCall :=
  match t.joined with
  | some .returned => (c.notifyPushes .down order).map .push
  | some .threw | none => []

end Connector

/-- What an action calls on `write_queue_`. -/
def calls (args : Args) : Action → Connector → List QueueCall
  | .start _, _ | .stop _, _ | .settle _, _ | .drop, _ | .reconnect, _ => []
  | .resume i _, c => (c.resumePushes i).map .push
  | .send payload, _ => [.push (.text payload)]
  | .requestStop, c => c.taskCalls Tasks.cancelCalls
  | .connected ok order, c => c.connectedCalls args ok order
  | .beginReader, c => c.taskCalls Tasks.startReadCalls
  | .readMessage msg, c =>
    (c.messagePushes msg).map .push ++ (c.handleMessage msg).taskCalls Tasks.startReadCalls
  | .readError order, c => (Connector.broadcastPushes .connectionDown order c).map .push
  | .beginWriter, c => c.taskCalls Tasks.startPopCalls
  | .resumeWriter, _ => [.resume]
  | .written ok, c => if ok then c.taskCalls Tasks.startPopCalls else []
  | .beginPinger, _ | .pingDue, _ => [.push pingFrame]
  | .pongPopped, _ | .pongTimeout, _ => []
  | .join order, c => c.taskCalls (c.joinCalls order)

/-! ## The functions push what is said -/

namespace Connector

/-- `write_queue_.push` for one frame after the other. -/
def sendAll (c : Connector) (frames : List Frame) : Connector := frames.foldl send c

variable (c : Connector)

@[simp] theorem phase_send (frame : Frame) :
    (c.send frame).phase = c.phase.mapTasks Tasks.wakeWriter := rfl

@[simp] theorem writeQueue_send (frame : Frame) :
    (c.send frame).writeQueue = c.writeQueue ++ [frame] := rfl

theorem writeQueue_sendAll (frames : List Frame) :
    (c.sendAll frames).writeQueue = c.writeQueue ++ frames := by
  induction frames generalizing c with
  | nil => exact (List.append_nil _).symm
  | cons frame frames ih =>
    refine (ih (c.send frame)).trans ?_
    rw [writeQueue_send, List.append_assoc, List.singleton_append]

end Connector

/-- The step pushes the frames one after the other, and the tasks are left alone otherwise. -/
structure Pushes (frames : List Frame) (c d : Connector) : Prop where
  writeQueue : d.writeQueue = c.writeQueue ++ frames
  phase : d.phase = (c.sendAll frames).phase

namespace Pushes

variable {c d e : Connector} {frames frames' : List Frame}

theorem of_eq (hqueue : d.writeQueue = c.writeQueue) (hphase : d.phase = c.phase) :
    Pushes [] c d where
  writeQueue := by rw [hqueue, List.append_nil]
  phase := hphase

theorem send (c : Connector) (frame : Frame) : Pushes [frame] c (c.send frame) := ⟨rfl, rfl⟩

/-- Only the phase says whether a writer waits. -/
theorem phase_sendAll (hphase : d.phase = c.phase) (frames : List Frame) :
    (d.sendAll frames).phase = (c.sendAll frames).phase := by
  induction frames generalizing c d with
  | nil => exact hphase
  | cons frame frames ih =>
    refine ih ?_
    rw [Connector.phase_send, Connector.phase_send, hphase]

theorem trans (h : Pushes frames c d) (h' : Pushes frames' d e) :
    Pushes (frames ++ frames') c e where
  writeQueue := by rw [h'.writeQueue, h.writeQueue, List.append_assoc]
  phase := by
    have hall : c.sendAll (frames ++ frames') = (c.sendAll frames).sendAll frames' :=
      List.foldl_append
    rw [hall, h'.phase, phase_sendAll h.phase]

/-- Nothing is pushed before. -/
theorem head (h : Pushes [] c d) (h' : Pushes frames d e) : Pushes frames c e := h.trans h'

/-- Nothing is pushed after. -/
theorem tail (h : Pushes frames c d) (h' : Pushes [] d e) : Pushes frames c e := by
  have htrans := h.trans h'
  rwa [List.append_nil] at htrans

end Pushes

namespace Connector

variable {c d : Connector}

theorem drop_pushes (c : Connector) : Pushes [] c c.drop := by
  unfold drop
  split_ifs
  · exact .of_eq rfl rfl
  · exact .of_eq rfl rfl

theorem perform_pushes (c : Connector) (e : Effect) : Pushes e.pushes c (c.perform e) := by
  cases e with
  | send payload => exact .send c _
  | drop => exact drop_pushes c
  | assertUp => exact .of_eq rfl rfl
  | assertNotClosed => exact .of_eq rfl rfl

theorem performAll_pushes (c : Connector) (effects : List Effect) :
    Pushes (effects.flatMap Effect.pushes) c (c.performAll effects) := by
  induction effects generalizing c with
  | nil => exact .of_eq rfl rfl
  | cons e effects ih => exact (perform_pushes c e).trans (ih _)

theorem setSub_pushes (c : Connector) (i : ℕ) (s : Subscription) : Pushes [] c (c.setSub i s) :=
  .of_eq rfl rfl

theorem handle_pushes (c : Connector) (i : ℕ) (e : ChannelEvent) :
    Pushes (c.handlePushes i e) c (c.handle i e) := by
  unfold handle handlePushes
  rcases c.subs[i]? with _ | s
  · exact .of_eq rfl rfl
  · exact (setSub_pushes c i _).head (performAll_pushes _ _)

theorem tell_pushes (c : Connector) (e : ChannelEvent) (index : ChannelMarketPair) :
    Pushes (c.tellPushes e index) c (c.tell e index) := by
  unfold tell tellPushes
  rcases c.channelStates.lookup index with _ | cs
  · exact .of_eq rfl rfl
  · dsimp only
    split_ifs
    · rcases cs.onEvent with _ | i
      · exact .of_eq rfl rfl
      · exact handle_pushes c i e
    · exact .of_eq rfl rfl

theorem broadcast_pushes (c : Connector) (order : List ChannelMarketPair) (e : ChannelEvent) :
    Pushes (broadcastPushes e order c) c (c.broadcast order e) := by
  induction order generalizing c with
  | nil => exact .of_eq rfl rfl
  | cons index order ih => exact (tell_pushes c e index).trans (ih _)

theorem announce_pushes (c : Connector) (s : ConnectionState) : Pushes [] c (c.announce s) :=
  .of_eq rfl rfl

theorem notifyConnectionState_pushes (c : Connector) (s : ConnectionState)
    (order : List ChannelMarketPair) :
    Pushes (c.notifyPushes s order) c (c.notifyConnectionState s order) :=
  (announce_pushes c s).head (broadcast_pushes _ order s.event)

theorem handleMessage_pushes (c : Connector) (msg : Message) :
    Pushes (c.messagePushes msg) c (c.handleMessage msg) := by
  rcases msg with _ | _ | jframe
  · exact .of_eq rfl rfl
  · exact .of_eq rfl rfl
  · simp only [handleMessage, messagePushes]
    rcases route jframe with _ | _ | index
    · exact .of_eq rfl rfl
    · exact .of_eq rfl rfl
    · exact tell_pushes c _ index

/-! The steps of a subscription. -/

variable {i : ℕ} {s : Subscription} {wake : Option ℕ}

theorem releaseChannel_pushes {index : ChannelMarketPair} {node : ℕ}
    (h : c.releaseChannel index node wake = some d) : Pushes [] c d := by
  obtain ⟨cs, -, ⟨-, -, rfl⟩ | ⟨-, hcancel⟩⟩ := releaseChannel_cases h
  · exact .of_eq rfl rfl
  · rcases cancelOne_cases hcancel with ⟨-, rfl, -⟩ | ⟨j, r, -, -, -, rfl⟩
    · exact .of_eq rfl rfl
    · exact .of_eq rfl rfl

theorem awaitClosed_pushes (h : c.awaitClosed i s wake = some d) : Pushes [] c d := by
  rcases awaitClosed_cases h with rfl | ⟨e, he, rfl⟩
  · exact .of_eq rfl rfl
  · exact (releaseChannel_pushes he).trans (setSub_pushes e i _)

theorem closeMachine_pushes (h : c.closeMachine i s wake = some d) :
    Pushes s.closePushes c d :=
  ((setSub_pushes c i _).head (performAll_pushes _ _)).tail (awaitClosed_pushes h)

theorem awaitStop_pushes (h : c.awaitStop i s wake = some d) : Pushes s.stopPushes c d := by
  unfold awaitStop at h
  unfold Subscription.stopPushes
  split_ifs at h ⊢
  · exact closeMachine_pushes h
  · exact Option.some_inj.mp h ▸ .of_eq rfl rfl

theorem taken_pushes (c : Connector) (i : ℕ) (s : Subscription) (cs : ChannelState) :
    Pushes [] c (c.taken i s cs) := .of_eq rfl rfl

theorem acquire_pushes {r : Subscription} (hi : c.subs[i]? = some r)
    (h : c.acquire i s wake = some d) :
    Pushes (c.acquirePushes s) c d := by
  obtain ⟨cs, -, ⟨hup, hstop⟩ | ⟨hdown, hstop⟩⟩ := acquire_cases h
  · have htold : (c.taken i s cs).handlePushes i .connectionUp = s.pushes .connectionUp := by
      rw [handlePushes, getElem?_taken hi]
      rfl
    have hhandled := (taken_pushes c i s cs).head (handle_pushes _ i .connectionUp)
    rw [htold] at hhandled
    rw [acquirePushes, if_pos hup]
    exact hhandled.trans (awaitStop_pushes hstop)
  · rw [acquirePushes, if_neg (by simp [hdown])]
    exact (taken_pushes c i s cs).head (awaitStop_pushes hstop)

theorem locateChannel_pushes (c : Connector) (index : ChannelMarketPair) :
    Pushes [] c (c.locateChannel index).2 := by
  unfold locateChannel
  split
  · exact .of_eq rfl rfl
  · exact .of_eq rfl rfl

theorem isUp_locateChannel (c : Connector) (index : ChannelMarketPair) :
    (c.locateChannel index).2.isUp = c.isUp := by
  unfold locateChannel
  split
  · rfl
  · rfl

theorem enter_pushes (hi : c.subs[i]? = some s) (h : c.enter i s wake = some d) :
    Pushes (if (c.locateChannel s.topic).1.acquired then [] else c.acquirePushes s) c d := by
  have hlocated : (c.locateChannel s.topic).2.subs[i]? = some s := by
    rw [subs_locateChannel]
    exact hi
  unfold enter at h
  dsimp only at h
  split_ifs at h ⊢ with hacq hwake hlatch
  · exact Option.some_inj.mp h ▸ (locateChannel_pushes c _).trans (setSub_pushes _ i _)
  · exact Option.some_inj.mp h ▸ (locateChannel_pushes c _).trans (setSub_pushes _ i _)
  · have hacquired := (locateChannel_pushes c s.topic).head (acquire_pushes hlocated h)
    rwa [acquirePushes, isUp_locateChannel] at hacquired

theorem resume_pushes (h : c.resume i wake = some d) : Pushes (c.resumePushes i) c d := by
  obtain ⟨s, hi, ⟨hpc, henter⟩ | ⟨hpc, rfl⟩ | ⟨hpc, hacquire⟩ | ⟨hpc, hclose⟩ | ⟨hpc, hclosed⟩⟩ :=
    resume_cases h
  · simp only [resumePushes, hi, hpc]
    exact enter_pushes hi henter
  · simp only [resumePushes, hi, hpc]
    exact setSub_pushes c i _
  · simp only [resumePushes, hi, hpc]
    exact acquire_pushes hi hacquire
  · simp only [resumePushes, hi, hpc]
    exact closeMachine_pushes hclose
  · simp only [resumePushes, hi, hpc]
    exact awaitClosed_pushes hclosed

end Connector

/-! ## Steps -/

/-- Each constructor is one thing that can happen to the queue and to the writer, with the calls
that it makes. -/
inductive QueueStep : List QueueCall → Connector → Connector → Prop
  | quiet {c d : Connector} (hqueue : d.writeQueue = c.writeQueue) (hphase : d.phase = c.phase) :
      QueueStep [] c d
  | push (c : Connector) (frame : Frame) : QueueStep [.push frame] c (c.send frame)
  | clear (c : Connector) : QueueStep [.clear] c { c with writeQueue := [] }
  /-- The reader or the keep-alive goes on. -/
  | others (c : Connector) {f : Tasks → Tasks}
      (hf : ∀ t, (f t).writer = t.writer ∧ (f t).cancelled = t.cancelled) :
      QueueStep [] c (c.modifyTasks f)
  | cancel (c : Connector) {f : Tasks → Tasks}
      (hf : ∀ t, (f t).writer = t.writer.wake ∧ (f t).cancelled = true) :
      QueueStep (c.taskCalls Tasks.cancelCalls) c (c.modifyTasks f)
  | pop {c : Connector} {t : Tasks} (hphase : c.phase = .online t)
      (hwriter : t.writer.isPopping = false) (hlive : t.cancelled = false) :
      QueueStep [.pop] c (c.pop t)
  | resume {c : Connector} {t : Tasks} (hphase : c.phase = .online t)
      (hwriter : t.writer = .popping true) : QueueStep [.resume] c (c.pop t)
  | endWriter {c : Connector} {t : Tasks} (hphase : c.phase = .online t)
      (hwriter : t.writer.isPopping = false) :
      QueueStep [] c (c.modifyTasks fun _ ↦ t.endWriter .threw)
  /-- A connection begins or ends. -/
  | turn {c d : Connector} (hqueue : d.writeQueue = c.writeQueue)
      (hc : ∀ t ∈ c.phase.tasks?, t.writer.isPopping = false)
      (hd : ∀ t ∈ d.phase.tasks?, t.writer.isPopping = false) : QueueStep [] c d
  | trans {c d e : Connector} {calls calls' : List QueueCall} (h : QueueStep calls c d)
      (h' : QueueStep calls' d e) : QueueStep (calls ++ calls') c e

namespace QueueStep

variable {c d e : Connector} {calls : List QueueCall}

theorem tail (h : QueueStep calls c d) (h' : QueueStep [] d e) : QueueStep calls c e := by
  have htrans := h.trans h'
  rwa [List.append_nil] at htrans

theorem sendAll (c : Connector) (frames : List Frame) :
    QueueStep (frames.map .push) c (c.sendAll frames) := by
  induction frames generalizing c with
  | nil => exact .quiet rfl rfl
  | cons frame frames ih => exact (push c frame).trans (ih _)

end QueueStep

theorem Pushes.queueStep {c d : Connector} {frames : List Frame} (h : Pushes frames c d) :
    QueueStep (frames.map .push) c d := by
  refine (QueueStep.sendAll c frames).tail (.quiet ?_ h.phase)
  rw [h.writeQueue, Connector.writeQueue_sendAll]

namespace Connector

variable {args : Args} {a : Action} {c d : Connector} {t : Tasks}

theorem taskCalls_of_online (hphase : c.phase = .online t) (f : Tasks → List QueueCall) :
    c.taskCalls f = f t := by
  rw [taskCalls, tasks_of_online hphase, Option.elim_some]

theorem offline_or_online (c : Connector) :
    (c.phase.tasks? = none ∧ ∀ f, c.phase.mapTasks f = c.phase) ∨ ∃ t, c.phase = .online t := by
  rcases c.phase with _ | _ | t | _ | _
  · exact .inl ⟨rfl, fun _ ↦ rfl⟩
  · exact .inl ⟨rfl, fun _ ↦ rfl⟩
  · exact .inr ⟨t, rfl⟩
  · exact .inl ⟨rfl, fun _ ↦ rfl⟩
  · exact .inl ⟨rfl, fun _ ↦ rfl⟩

theorem startRead_queueStep (c : Connector) :
    QueueStep (c.taskCalls Tasks.startReadCalls) c (c.modifyTasks Tasks.startRead) := by
  rcases c.offline_or_online with ⟨htasks, hphase⟩ | ⟨t, hphase⟩
  · rw [taskCalls, htasks]
    exact .quiet rfl (hphase _)
  · have hsame {f : Tasks → Tasks} (hf : t.startRead = f t) :
        QueueStep [] (c.modifyTasks f) (c.modifyTasks Tasks.startRead) :=
      .quiet rfl (by rw [phase_modifyTasks hphase, phase_modifyTasks hphase, hf])
    rw [taskCalls_of_online hphase, Tasks.startReadCalls]
    split_ifs with hcancelled
    · have hcancel := QueueStep.cancel c (f := fun t ↦ t.endReader .threw) fun _ ↦ ⟨rfl, rfl⟩
      rw [taskCalls_of_online hphase] at hcancel
      exact hcancel.tail (hsame (if_pos hcancelled))
    · exact (QueueStep.others c (f := fun t ↦ { t with reader := .reading })
        fun _ ↦ ⟨rfl, rfl⟩).tail (hsame (if_neg hcancelled))

theorem startPop_queueStep (hphase : c.phase = .online t) (hwriter : t.writer.isPopping = false) :
    QueueStep (c.taskCalls Tasks.startPopCalls) c (c.startPop t) := by
  rw [taskCalls_of_online hphase, Tasks.startPopCalls, startPop]
  split_ifs with hcancelled
  · exact .endWriter hphase hwriter
  · exact .pop hphase hwriter (Bool.eq_false_iff.mpr hcancelled)

theorem writer_queueStep (ha : a = .beginWriter ∨ a = .resumeWriter ∨ ∃ ok, a = .written ok)
    (h : step args a c = some d) : QueueStep (calls args a c) c d := by
  rcases ha with rfl | rfl | ⟨ok, rfl⟩
  · obtain ⟨t, ht, h⟩ := Option.bind_eq_some_iff.mp h
    split at h
    · rename_i hw
      exact Option.some_inj.mp h ▸ startPop_queueStep (phase_eq_online ht) (by rw [hw]; rfl)
    · exact absurd h (by simp)
  · obtain ⟨t, ht, h⟩ := Option.bind_eq_some_iff.mp h
    split at h
    · exact Option.some_inj.mp h ▸ .resume (phase_eq_online ht) ‹_›
    · exact absurd h (by simp)
  · obtain ⟨t, ht, h⟩ := Option.bind_eq_some_iff.mp h
    split at h
    · rename_i hw
      have hwriter : t.writer.isPopping = false := by
        rw [hw]
        rfl
      rw [calls]
      split_ifs at h ⊢
      · exact Option.some_inj.mp h ▸ startPop_queueStep (phase_eq_online ht) hwriter
      · exact Option.some_inj.mp h ▸ .endWriter (phase_eq_online ht) hwriter
    · exact absurd h (by simp)

theorem ping_queueStep (c : Connector) : QueueStep [.push pingFrame] c c.ping :=
  (QueueStep.push c pingFrame).tail (.others _ fun _ ↦ ⟨rfl, rfl⟩)

theorem pinger_queueStep
    (ha : a = .beginPinger ∨ a = .pongPopped ∨ a = .pongTimeout ∨ a = .pingDue)
    (h : step args a c = some d) : QueueStep (calls args a c) c d := by
  rcases ha with rfl | rfl | rfl | rfl
  · obtain ⟨t, -, h⟩ := Option.bind_eq_some_iff.mp h
    split at h
    · exact Option.some_inj.mp h ▸ ping_queueStep c
    · exact absurd h (by simp)
  · obtain ⟨t, -, h⟩ := Option.bind_eq_some_iff.mp h
    split at h
    · have htaken : QueueStep [] c { c with pongBuffer := none } := .quiet rfl rfl
      exact Option.some_inj.mp h ▸ htaken.tail (.others _ fun _ ↦ ⟨rfl, rfl⟩)
    · exact absurd h (by simp)
  · obtain ⟨t, -, h⟩ := Option.bind_eq_some_iff.mp h
    split at h
    · exact Option.some_inj.mp h ▸ .others c fun _ ↦ ⟨rfl, rfl⟩
    · exact absurd h (by simp)
  · obtain ⟨t, -, h⟩ := Option.bind_eq_some_iff.mp h
    split at h
    · exact Option.some_inj.mp h ▸ ping_queueStep c
    · exact absurd h (by simp)

/-- `clear`, and the login frame. -/
theorem opened_queueStep {ok : Bool} (hoffline : c.phase.tasks? = none) :
    QueueStep (.clear :: if args.hasAuth then [.push .login] else []) c (c.opened args ok) := by
  have hclear := QueueStep.clear c
  by_cases hauth : args.hasAuth = true
  · rw [if_pos hauth]
    refine (hclear.trans (.push _ .login)).tail (.quiet ?_ ?_)
    · simp [opened, hauth]
    · rcases c.offline_or_online with ⟨-, hsame⟩ | ⟨t, honline⟩
      · exact (hsame _).symm
      · simp [honline, RunPhase.tasks?] at hoffline
  · rw [if_neg hauth]
    refine hclear.tail (.quiet ?_ rfl)
    simp [opened, hauth]

theorem not_isPopping_of_offline (hoffline : c.phase.tasks? = none) :
    ∀ t ∈ c.phase.tasks?, t.writer.isPopping = false := by
  rw [hoffline]
  simp

theorem leaveReconnect_queueStep (h : ∀ t ∈ c.phase.tasks?, t.writer.isPopping = false) :
    QueueStep [] c c.leaveReconnect :=
  .turn rfl h fun _ ht ↦ absurd ht not_mem_tasks_leaveReconnect

theorem tasks?_of_between (h : c.phase = .idle ∨ c.phase = .delay) : c.phase.tasks? = none := by
  rcases h with h | h
  · rw [h]
    rfl
  · rw [h]
    rfl

theorem not_isPopping_of_joined {o : Outcome} (hphase : c.phase = .online t)
    (h : t.joined = some o) : ∀ t ∈ c.phase.tasks?, t.writer.isPopping = false := by
  rw [tasks_of_online hphase]
  rintro t' ht'
  obtain rfl := Option.mem_some_iff.mp ht'
  rcases hw : t.writer with _ | woken | frame | o'
  · rfl
  · simp [Tasks.joined, Writer.outcome?, hw] at h
  · rfl
  · rfl

/-- Announcing a change of the connection finds no writer in a `pop` where there was none. -/
theorem notifyConnectionState_isPopping {s : ConnectionState} {order : List ChannelMarketPair}
    (h : ∀ t ∈ c.phase.tasks?, t.writer.isPopping = false) :
    ∀ t ∈ (c.notifyConnectionState s order).phase.tasks?, t.writer.isPopping = false := by
  intro t' ht'
  rcases (notifyConnectionState_undisturbed c s order).phase with hsame | hwoken
  · exact h t' (hsame ▸ ht')
  · have hmodified : (c.notifyConnectionState s order).phase
        = (c.modifyTasks Tasks.wakeWriter).phase := hwoken
    rw [hmodified] at ht'
    obtain ⟨t, ht, rfl⟩ := mem_tasks_modifyTasks ht'
    have hidle := h t ht
    rw [Tasks.wakeWriter]
    rcases hw : t.writer with _ | _ | _ | _ <;> simp_all [Writer.wake, Writer.isPopping]

/-- The connection is made and announced, and no writer runs yet. -/
theorem announced_queueStep {ok : Bool} {order : List ChannelMarketPair}
    (hphase : c.phase = .connecting) :
    QueueStep (c.connectedCalls args ok order) c
        ((c.opened args ok).notifyConnectionState .up order) ∧
      ∀ t ∈ ((c.opened args ok).notifyConnectionState .up order).phase.tasks?,
        t.writer.isPopping = false := by
  have hoffline : c.phase.tasks? = none := by
    rw [hphase]
    rfl
  have hopened : (c.opened args ok).phase.tasks? = none := hoffline
  exact ⟨(opened_queueStep hoffline).trans (notifyConnectionState_pushes _ .up order).queueStep,
    notifyConnectionState_isPopping (not_isPopping_of_offline hopened)⟩

/-- **Every step of the connector makes its calls.** -/
theorem step_queueStep (h : step args a c = some d) : QueueStep (calls args a c) c d := by
  by_cases ha : a.IsConnection
  · cases connection_move ha h with
    | send payload => exact .push c _
    | drop => exact (drop_pushes c).queueStep
    | requestStop =>
      have hflag : QueueStep [] c { c with stopRequested := true } := .quiet rfl rfl
      exact hflag.trans (.cancel { c with stopRequested := true } (f := Tasks.cancel)
        fun _ ↦ ⟨rfl, rfl⟩)
    | stopped hphase hstop =>
      exact .turn rfl (not_isPopping_of_offline (tasks?_of_between hphase))
        (not_isPopping_of_offline rfl)
    | connecting hphase hstop =>
      exact .turn rfl (not_isPopping_of_offline (tasks?_of_between hphase))
        (not_isPopping_of_offline rfl)
    | badUrl hphase hstop =>
      exact leaveReconnect_queueStep (not_isPopping_of_offline (tasks?_of_between hphase))
    | abandoned hphase hwalks hstop =>
      obtain ⟨hannounced, hidle⟩ := announced_queueStep hphase
      exact hannounced.tail (leaveReconnect_queueStep hidle)
    | announced hphase hwalks hstop =>
      obtain ⟨hannounced, hidle⟩ := announced_queueStep hphase
      refine hannounced.tail (.turn rfl hidle ?_)
      simp [RunPhase.tasks?, Writer.isPopping]
    | beginReader hphase ht => exact startRead_queueStep c
    | readMessage hphase ht =>
      exact (handleMessage_pushes c _).queueStep.trans (startRead_queueStep _)
    | readError hphase ht hwalks =>
      exact (broadcast_pushes c _ _).queueStep.tail (.others _ fun _ ↦ ⟨rfl, rfl⟩)
    | writer hwriter hphase ht => exact writer_queueStep hwriter h
    | pinger hpinger hphase ht => exact pinger_queueStep hpinger h
    | joined hphase ht hwalks =>
      rw [calls, taskCalls_of_online hphase, joinCalls, ht]
      exact (notifyConnectionState_pushes c .down _).queueStep.tail (leaveReconnect_queueStep
        (notifyConnectionState_isPopping (not_isPopping_of_joined hphase ht)))
    | failed hphase ht =>
      rw [calls, taskCalls_of_online hphase, joinCalls, ht]
      exact leaveReconnect_queueStep (not_isPopping_of_joined hphase ht)
  · cases a with
    | start topic => exact Option.some_inj.mp h ▸ .quiet rfl rfl
    | stop i =>
      obtain ⟨s, -, ⟨-, rfl⟩ | rfl⟩ := stop_cases h
      · exact .quiet rfl rfl
      · exact .quiet rfl rfl
    | settle i =>
      obtain ⟨s, -, -, rfl⟩ := settle_cases h
      exact .quiet rfl rfl
    | resume i wake => exact (resume_pushes h).queueStep
    | _ => exact absurd trivial ha

end Connector

/-! ## What the calls do to the queue -/

theorem writeQueue_pop (c : Connector) (t : Tasks) : (c.pop t).writeQueue = c.writeQueue.tail := by
  unfold Connector.pop
  split
  · rename_i hqueue
    exact hqueue.trans (congrArg List.tail hqueue).symm
  · rename_i hqueue
    exact (congrArg List.tail hqueue).symm

theorem QueueStep.writeQueue {calls : List QueueCall} {c d : Connector}
    (h : QueueStep calls c d) : d.writeQueue = calls.foldl QueueCall.apply c.writeQueue := by
  induction h with
  | quiet hqueue hphase => exact hqueue
  | push c frame => rfl
  | clear c => rfl
  | others c hf => rfl
  | cancel c hf =>
    rcases c.offline_or_online with ⟨htasks, -⟩ | ⟨t, hphase⟩
    · rw [Connector.taskCalls, htasks]
      rfl
    · rw [Connector.taskCalls_of_online hphase, Tasks.cancelCalls]
      split_ifs <;> rfl
  | pop hphase hwriter hlive => exact writeQueue_pop _ _
  | resume hphase hwriter => exact writeQueue_pop _ _
  | endWriter hphase hwriter => rfl
  | turn hqueue hc hd => exact hqueue
  | trans h h' ih ih' => rw [List.foldl_append, ← ih, ih']

/-- **A step does to the queue what its calls do to it.** -/
theorem step_writeQueue {args : Args} {a : Action} {c d : Connector} (h : step args a c = some d) :
    d.writeQueue = (calls args a c).foldl QueueCall.apply c.writeQueue :=
  (Connector.step_queueStep h).writeQueue

end Ftx

end BoostConnector
