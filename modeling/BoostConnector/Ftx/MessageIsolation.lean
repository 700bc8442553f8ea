import BoostConnector.Ftx.QueueCalls

/-!
# Messages never cross connections

All connections of a connector share `write_queue_`. The record of a run (`Watched`) follows the
calls on the queue: every `push` gets a serial number, `clear` and `pop` do to the recorded queue
what they do to the real one, and every connection keeps what was pushed since its `clear()` and the
writes that were started. That the recorded queue is the one of the connector is proved, not assumed
(`step_writeQueue`).

Only the tasks of the current connection take frames, and `clear()` comes before any of them runs.
So what is written on a connection is a prefix of what was pushed since its `clear()`, and nothing
is written on two (`run_isolated`).
-/

namespace BoostConnector

namespace Ftx

open Transition

/-! ## Steps that only push -/

/-- Everything but the login frame, which only `reconnect` pushes. -/
def Frame.IsPayload : Frame → Prop
  | .login => False
  | .json _ | .text _ => True

/-- The call neither clears the queue nor takes a frame from it, and pushes no login. -/
def QueueCall.SendsOnly : QueueCall → Prop
  | push arg => arg.IsPayload
  | cancel => True
  | clear | pop | resume => False

theorem sendsOnly_map_push {frames : List Frame} (h : ∀ frame ∈ frames, frame.IsPayload) :
    ∀ call ∈ frames.map QueueCall.push, call.SendsOnly := by
  intro call hcall
  obtain ⟨frame, hframe, rfl⟩ := List.mem_map.mp hcall
  exact h frame hframe

/-- The calls of a state machine push payloads. -/
theorem effects_isPayload (effects : List Effect) :
    ∀ frame ∈ effects.flatMap Effect.pushes, frame.IsPayload := by
  intro frame hframe
  obtain ⟨e, -, he⟩ := List.mem_flatMap.mp hframe
  cases e with
  | send payload => exact List.mem_singleton.mp he ▸ trivial
  | _ => exact absurd he List.not_mem_nil

theorem Subscription.stopPushes_isPayload (s : Subscription) :
    ∀ frame ∈ s.stopPushes, frame.IsPayload := by
  unfold stopPushes
  split_ifs
  · exact effects_isPayload _
  · exact List.forall_mem_nil _

namespace Connector

variable (c : Connector)

theorem tellPushes_isPayload (e : ChannelEvent) (index : ChannelMarketPair) :
    ∀ frame ∈ c.tellPushes e index, frame.IsPayload := by
  unfold tellPushes
  split
  · split_ifs
    · split
      · unfold handlePushes
        split
        · exact effects_isPayload _
        · exact List.forall_mem_nil _
      · exact List.forall_mem_nil _
    · exact List.forall_mem_nil _
  · exact List.forall_mem_nil _

theorem broadcastPushes_isPayload (e : ChannelEvent) (order : List ChannelMarketPair) :
    ∀ frame ∈ broadcastPushes e order c, frame.IsPayload := by
  induction order generalizing c with
  | nil => exact List.forall_mem_nil _
  | cons index order ih =>
    exact List.forall_mem_append.mpr ⟨c.tellPushes_isPayload e index, ih _⟩

theorem messagePushes_isPayload (msg : Message) :
    ∀ frame ∈ c.messagePushes msg, frame.IsPayload := by
  unfold messagePushes
  split
  · exact List.forall_mem_nil _
  · split
    · exact List.forall_mem_nil _
    · split
      · exact c.tellPushes_isPayload _ _
      · exact List.forall_mem_nil _
      · exact List.forall_mem_nil _

theorem acquirePushes_isPayload (s : Subscription) :
    ∀ frame ∈ c.acquirePushes s, frame.IsPayload := by
  unfold acquirePushes
  split_ifs
  · exact List.forall_mem_append.mpr ⟨effects_isPayload _, Subscription.stopPushes_isPayload _⟩
  · exact s.stopPushes_isPayload

theorem resumePushes_isPayload (i : ℕ) : ∀ frame ∈ c.resumePushes i, frame.IsPayload := by
  unfold resumePushes
  split
  · exact List.forall_mem_nil _
  · split
    · split_ifs
      · exact List.forall_mem_nil _
      · exact c.acquirePushes_isPayload _
    · exact c.acquirePushes_isPayload _
    · exact effects_isPayload _
    all_goals exact List.forall_mem_nil _

theorem taskCalls_sendsOnly {f : Tasks → List QueueCall}
    (h : ∀ t, ∀ call ∈ f t, call.SendsOnly) : ∀ call ∈ c.taskCalls f, call.SendsOnly := by
  unfold taskCalls
  rcases c.phase.tasks? with _ | t
  · exact List.forall_mem_nil _
  · exact h t

theorem joinCalls_sendsOnly (order : List ChannelMarketPair) (t : Tasks) :
    ∀ call ∈ c.joinCalls order t, call.SendsOnly := by
  unfold joinCalls
  split
  · exact sendsOnly_map_push (broadcastPushes_isPayload _ _ order)
  · exact List.forall_mem_nil _
  · exact List.forall_mem_nil _

end Connector

theorem Tasks.cancelCalls_sendsOnly (t : Tasks) : ∀ call ∈ t.cancelCalls, call.SendsOnly := by
  unfold cancelCalls
  split_ifs
  · exact List.forall_mem_singleton.mpr trivial
  · exact List.forall_mem_nil _

theorem Tasks.startReadCalls_sendsOnly (t : Tasks) :
    ∀ call ∈ t.startReadCalls, call.SendsOnly := by
  unfold startReadCalls
  split_ifs
  · exact t.cancelCalls_sendsOnly
  · exact List.forall_mem_nil _

/-- The actions of `ftx_write_state`. -/
def Action.isWriter : Action → Bool
  | .beginWriter | .resumeWriter | .written _ => true
  | _ => false

/-- Whatever neither opens a connection nor is done by the writer only sends. -/
theorem calls_sendsOnly {args : Args} {a : Action} (hwriter : a.isWriter = false)
    (hconnected : ∀ ok order, a ≠ .connected ok order) (c : Connector) :
    ∀ call ∈ calls args a c, call.SendsOnly := by
  cases a with
  | resume i wake => exact sendsOnly_map_push (c.resumePushes_isPayload i)
  | send payload => exact List.forall_mem_singleton.mpr trivial
  | requestStop => exact c.taskCalls_sendsOnly Tasks.cancelCalls_sendsOnly
  | connected ok order => exact absurd rfl (hconnected ok order)
  | beginReader => exact c.taskCalls_sendsOnly Tasks.startReadCalls_sendsOnly
  | readMessage msg =>
    exact List.forall_mem_append.mpr ⟨sendsOnly_map_push (c.messagePushes_isPayload msg),
      Connector.taskCalls_sendsOnly _ Tasks.startReadCalls_sendsOnly⟩
  | readError order => exact sendsOnly_map_push (c.broadcastPushes_isPayload _ order)
  | beginWriter => simp [Action.isWriter] at hwriter
  | resumeWriter => simp [Action.isWriter] at hwriter
  | written ok => simp [Action.isWriter] at hwriter
  | beginPinger => exact List.forall_mem_singleton.mpr trivial
  | pingDue => exact List.forall_mem_singleton.mpr trivial
  | join order => exact c.taskCalls_sendsOnly (c.joinCalls_sendsOnly order)
  | _ => exact List.forall_mem_nil _

/-! ## No writer begins or ends -/

/-- The writer of the tasks has not begun or ended in between. -/
def KeepsWriter (c d : Connector) : Prop :=
  ∀ t' ∈ d.phase.tasks?, ∃ t ∈ c.phase.tasks?, t'.writer.outcome? = t.writer.outcome?

namespace KeepsWriter

variable {c d e : Connector}

theorem of_eq (hphase : d.phase = c.phase) : KeepsWriter c d :=
  fun t ht ↦ ⟨t, hphase ▸ ht, rfl⟩

theorem trans (h : KeepsWriter c d) (h' : KeepsWriter d e) : KeepsWriter c e := by
  intro t' ht'
  obtain ⟨u, hu, houtcome⟩ := h' t' ht'
  obtain ⟨t, ht, houtcome'⟩ := h u hu
  exact ⟨t, ht, houtcome.trans houtcome'⟩

theorem modifyTasks (c : Connector) {f : Tasks → Tasks}
    (hf : ∀ t, (f t).writer.outcome? = t.writer.outcome?) : KeepsWriter c (c.modifyTasks f) := by
  intro t' ht'
  obtain ⟨t, ht, rfl⟩ := Connector.mem_tasks_modifyTasks ht'
  exact ⟨t, ht, hf t⟩

theorem sendAll (c : Connector) (frames : List Frame) : KeepsWriter c (c.sendAll frames) := by
  induction frames generalizing c with
  | nil => exact .of_eq rfl
  | cons frame frames ih =>
    have hsent : KeepsWriter c (c.send frame) := modifyTasks _ fun t ↦ t.writer.outcome?_wake
    exact hsent.trans (ih _)

/-- Without tasks there is no writer. -/
theorem of_offline (hphase : ∀ t, t ∉ d.phase.tasks?) : KeepsWriter c d :=
  fun t ht ↦ absurd ht (hphase t)

end KeepsWriter

theorem Pushes.keepsWriter {c d : Connector} {frames : List Frame} (h : Pushes frames c d) :
    KeepsWriter c d :=
  (KeepsWriter.sendAll c frames).trans (.of_eq h.phase)

namespace Connector

variable {c d : Connector}

theorem ping_keepsWriter (c : Connector) : KeepsWriter c c.ping :=
  (KeepsWriter.sendAll c [pingFrame]).trans (.modifyTasks _ fun _ ↦ rfl)

theorem pinger_keepsWriter {args : Args} {a : Action}
    (ha : a = .beginPinger ∨ a = .pongPopped ∨ a = .pongTimeout ∨ a = .pingDue)
    (h : step args a c = some d) : KeepsWriter c d := by
  obtain ⟨t, -, -, rfl | rfl | ⟨-, -, rfl⟩⟩ := pinger_cases ha h
  · exact ping_keepsWriter c
  · have htaken : KeepsWriter c { c with pongBuffer := none } := .of_eq rfl
    exact htaken.trans (.modifyTasks _ fun _ ↦ rfl)
  · exact .modifyTasks c fun _ ↦ rfl

theorem leaveReconnect_keepsWriter (c : Connector) : KeepsWriter c c.leaveReconnect :=
  .of_offline fun _ ↦ not_mem_tasks_leaveReconnect

theorem startRead_keepsWriter (c : Connector) :
    KeepsWriter c (c.modifyTasks Tasks.startRead) := by
  refine .modifyTasks c fun t ↦ ?_
  unfold Tasks.startRead
  split_ifs
  · exact t.writer.outcome?_wake
  · rfl

end Connector

theorem SubscriptionMove.keepsWriter {c d : Connector} (h : SubscriptionMove c d) :
    KeepsWriter c d := by
  cases h with
  | locate index => exact (Connector.locateChannel_pushes c index).keepsWriter
  | takeUp hi hbefore node cs hup =>
    exact ((Connector.taken_pushes c _ _ cs).head (Connector.handle_pushes _ _ _)).keepsWriter
  | close hi hpc =>
    exact ((Connector.setSub_pushes c _ _).head (Connector.performAll_pushes _ _)).keepsWriter
  | _ => exact .of_eq rfl

/-- A step that neither opens a connection nor is one of the writer. -/
theorem step_keepsWriter {args : Args} {a : Action} {c d : Connector} (hwriter : a.isWriter = false)
    (hconnected : ∀ ok order, a ≠ .connected ok order) (h : step args a c = some d) :
    KeepsWriter c d := by
  by_cases ha : a.IsConnection
  · cases connection_move ha h with
    | send payload => exact (Pushes.send c _).keepsWriter
    | drop => exact (Connector.drop_pushes c).keepsWriter
    | requestStop =>
      have hflag : KeepsWriter c { c with stopRequested := true } := .of_eq rfl
      exact hflag.trans (.modifyTasks _ fun t ↦ t.writer.outcome?_wake)
    | stopped hphase hstop => exact .of_offline fun t ht ↦ by simp [RunPhase.tasks?] at ht
    | connecting hphase hstop => exact .of_offline fun t ht ↦ by simp [RunPhase.tasks?] at ht
    | badUrl hphase hstop => exact Connector.leaveReconnect_keepsWriter c
    | @abandoned ok order hphase hwalks hstop => exact absurd rfl (hconnected ok order)
    | @announced ok order hphase hwalks hstop => exact absurd rfl (hconnected ok order)
    | beginReader hphase ht => exact Connector.startRead_keepsWriter c
    | readMessage hphase ht =>
      exact (Connector.handleMessage_pushes c _).keepsWriter.trans
        (Connector.startRead_keepsWriter _)
    | readError hphase ht hwalks =>
      exact (Connector.broadcast_pushes c _ _).keepsWriter.trans (.modifyTasks _ fun _ ↦ rfl)
    | writer ha hphase ht =>
      rcases ha with rfl | rfl | ⟨ok, rfl⟩ <;> simp [Action.isWriter] at hwriter
    | pinger ha hphase ht => exact Connector.pinger_keepsWriter ha h
    | joined hphase ht hwalks =>
      exact (Connector.notifyConnectionState_pushes c _ _).keepsWriter.trans
        (Connector.leaveReconnect_keepsWriter _)
    | failed hphase ht => exact Connector.leaveReconnect_keepsWriter c
  · exact subscription_invariant (fun hI hmove ↦ hI.trans hmove.keepsWriter) ha (.of_eq rfl) h

/-! ## The writer -/

/-- The frame that is being written. -/
def Writer.frame? : Writer → Option Frame
  | writing frame => some frame
  | _ => none

def Connector.writing? (c : Connector) : Option Frame :=
  c.phase.tasks?.bind fun t ↦ t.writer.frame?

/-- The writer has looked into the queue, in a new `pop` or after a wait. -/
def Looks (calls : List QueueCall) : Prop := calls = [.pop] ∨ calls = [.resume]

theorem Looks.foldl_apply {calls : List QueueCall} (h : Looks calls) (queue : List Frame) :
    calls.foldl QueueCall.apply queue = queue.tail := by
  rcases h with rfl | rfl <;> rfl

/-- Each constructor is one way a step of the writer can end. -/
inductive WriterStep (calls : List QueueCall) (c d : Connector) : Prop
  | ends (hcalls : calls = []) (hidle : d.writing? = none)
  | waits (hlooks : Looks calls) (hqueue : c.writeQueue = []) (hidle : d.writing? = none)
  | writes {frame : Frame} {rest : List Frame} (hlooks : Looks calls)
      (hqueue : c.writeQueue = frame :: rest) (hwriting : d.writing? = some frame)
  /-- The frame was taken, but the write was not started: the writer has been cancelled. -/
  | loses {frame : Frame} {rest : List Frame} (hlooks : Looks calls)
      (hqueue : c.writeQueue = frame :: rest) (hidle : d.writing? = none)
      (hended : ∀ t ∈ d.phase.tasks?, t.writer.outcome? ≠ none)

namespace Connector

variable {c d : Connector} {t : Tasks} {calls : List QueueCall}

theorem endWriter_writing? (hphase : c.phase = .online t) :
    (c.modifyTasks fun _ ↦ t.endWriter .threw).writing? = none := by
  simp [writing?, modifyTasks, hphase, RunPhase.mapTasks, RunPhase.tasks?, Tasks.endWriter,
    Tasks.cancel, Writer.wake, Writer.frame?]

theorem pop_step (hphase : c.phase = .online t) (hlooks : Looks calls) :
    WriterStep calls c (c.pop t) := by
  unfold pop
  split
  · rename_i hqueue
    by_cases hcancelled : t.cancelled = true
    · simp only [hcancelled, if_true]
      exact .waits hlooks hqueue (endWriter_writing? hphase)
    · simp only [hcancelled]
      exact .waits hlooks hqueue (by simp [writing?, modifyTasks, hphase, RunPhase.mapTasks,
        RunPhase.tasks?, Writer.frame?])
  · rename_i frame rest hqueue
    by_cases hcancelled : t.cancelled = true
    · refine .loses hlooks hqueue ?_ fun t' ht' ↦ ?_
      · simp [writing?, modifyTasks, hphase, RunPhase.mapTasks, RunPhase.tasks?, hcancelled,
          Tasks.endWriter, Tasks.cancel, Writer.wake, Writer.frame?]
      · obtain ⟨t₀, -, rfl⟩ := mem_tasks_modifyTasks ht'
        simp [hcancelled, Tasks.endWriter, Tasks.cancel, Writer.wake, Writer.outcome?]
    · exact .writes hlooks hqueue (by simp [writing?, modifyTasks, hphase, RunPhase.mapTasks,
        RunPhase.tasks?, hcancelled, Writer.frame?])

theorem startPop_step (hphase : c.phase = .online t) :
    WriterStep (c.taskCalls Tasks.startPopCalls) c (c.startPop t) := by
  rw [taskCalls_of_online hphase, Tasks.startPopCalls, startPop]
  split_ifs
  · exact .ends rfl (endWriter_writing? hphase)
  · exact pop_step hphase (.inl rfl)

end Connector

/-- A step of the writer is one of a writer that is running. -/
theorem writer_step {args : Args} {a : Action} {c d : Connector} (ha : a.isWriter = true)
    (h : step args a c = some d) :
    (∃ t ∈ c.phase.tasks?, t.writer.outcome? = none) ∧ WriterStep (calls args a c) c d := by
  cases a with
  | beginWriter =>
    obtain ⟨t, ht, h⟩ := Option.bind_eq_some_iff.mp h
    split at h
    · rename_i hw
      exact ⟨⟨t, ht, by rw [hw]; rfl⟩,
        Option.some_inj.mp h ▸ Connector.startPop_step (Connector.phase_eq_online ht)⟩
    · exact absurd h (by simp)
  | resumeWriter =>
    obtain ⟨t, ht, h⟩ := Option.bind_eq_some_iff.mp h
    split at h
    · rename_i hw
      exact ⟨⟨t, ht, by rw [hw]; rfl⟩,
        Option.some_inj.mp h ▸ Connector.pop_step (Connector.phase_eq_online ht) (.inr rfl)⟩
    · exact absurd h (by simp)
  | written ok =>
    obtain ⟨t, ht, h⟩ := Option.bind_eq_some_iff.mp h
    have hphase := Connector.phase_eq_online ht
    split at h
    · rename_i hw
      refine ⟨⟨t, ht, by rw [hw]; rfl⟩, ?_⟩
      rw [calls]
      split_ifs at h ⊢
      · exact Option.some_inj.mp h ▸ Connector.startPop_step hphase
      · exact Option.some_inj.mp h ▸ .ends rfl (Connector.endWriter_writing? hphase)
    · exact absurd h (by simp)
  | _ => exact absurd ha (by simp [Action.isWriter])

/-! ## Serial numbers -/

/-- A connection: how many frames had been pushed before its `clear()`, the frames pushed since, and
those whose write was started, each with its serial number. -/
structure Wire where
  first : ℕ
  pushed : List (Frame × ℕ) := []
  written : List (Frame × ℕ) := []

namespace Wire

variable (w : Wire)

def push (x : Frame × ℕ) : Wire := { w with pushed := w.pushed ++ [x] }

def clear (pushes : ℕ) : Wire := { w with first := pushes, pushed := [] }

def write (frames : List (Frame × ℕ)) : Wire := { w with written := w.written ++ frames }

end Wire

/-- A connector with the number of frames that have been pushed so far, the queued ones with their
serial numbers, and its connections, the newest first. -/
structure Watched where
  connector : Connector := {}
  pushes : ℕ := 0
  queue : List (Frame × ℕ) := []
  wires : List Wire := []

namespace Watched

variable (o : Watched)

/-- A connection begins. The queue is what it was. -/
def connect : Watched := { o with wires := { first := o.pushes } :: o.wires }

/-- A call on the queue, which the newest connection sees. -/
def call : QueueCall → Watched
  | .push arg =>
    { o with
      pushes := o.pushes + 1
      queue := o.queue ++ [(arg, o.pushes)]
      wires := o.wires.modifyHead (·.push (arg, o.pushes)) }
  | .clear => { o with queue := [], wires := o.wires.modifyHead (·.clear o.pushes) }
  | .pop | .resume => { o with queue := o.queue.tail }
  | .cancel => o

def callAll (calls : List QueueCall) : Watched := calls.foldl call o

/-- The newest connection starts to write the frames. -/
def write (frames : List (Frame × ℕ)) : Watched :=
  { o with wires := o.wires.modifyHead (·.write frames) }

/-- What a step called on the queue and what it started to write when it ended in `d`. The writer
writes the frame that it found at the front of the queue. -/
def follow (args : Args) (a : Action) (d : Connector) : Watched :=
  let started := if a.isWriter then d.writing?.toList.zip (o.queue.map Prod.snd) else []
  let begun := match a with
    | .connected _ _ => o.connect
    | _ => o
  ({ begun with connector := d }.callAll (calls args a o.connector)).write started

end Watched

def watchStep (args : Args) (a : Action) (o : Watched) : Option Watched :=
  (step args a o.connector).map (o.follow args a)

/-- The run with its record. -/
def watch (args : Args) (actions : List Action) : Option Watched :=
  exec (watchStep args) actions {}

/-- The messages of each connection are its own. -/
structure Isolated (args : Args) (o : Watched) : Prop where
  /-- The recorded queue is the queue of the connector. -/
  queue : o.queue.map Prod.fst = o.connector.writeQueue
  /-- What is written on a connection is, in order, a prefix of what was pushed since its
  `clear()`. -/
  inOrder : ∀ w ∈ o.wires, w.written <+: w.pushed
  /-- That is the login frame if there are credentials, and payloads. -/
  login : ∀ w ∈ o.wires, ∃ payloads : List Frame,
    w.pushed.map Prod.fst = (if args.hasAuth then [.login] else []) ++ payloads ∧
      ∀ frame ∈ payloads, frame.IsPayload
  /-- Nothing that was pushed before the `clear()` of a connection is written on it or later. -/
  cleared : ∀ w ∈ o.wires, ∀ x ∈ w.written, w.first ≤ x.2
  clearedLater : o.wires.Pairwise fun later w ↦ ∀ x ∈ later.written, w.first ≤ x.2
  /-- No push is written twice. -/
  once : ((o.wires.flatMap Wire.written).map Prod.snd).Nodup

/-! ## The recorded queue -/

namespace Watched

variable (o : Watched)

theorem queue_call (call : QueueCall) :
    (o.call call).queue.map Prod.fst = call.apply (o.queue.map Prod.fst) := by
  cases call with
  | push arg => exact List.map_append
  | clear => rfl
  | pop => exact List.map_tail
  | resume => exact List.map_tail
  | cancel => rfl

theorem queue_callAll (calls : List QueueCall) :
    (o.callAll calls).queue.map Prod.fst
      = calls.foldl QueueCall.apply (o.queue.map Prod.fst) := by
  induction calls generalizing o with
  | nil => rfl
  | cons call calls ih =>
    rw [callAll, List.foldl_cons, List.foldl_cons, ← queue_call]
    exact ih _

theorem connector_call (call : QueueCall) : (o.call call).connector = o.connector := by
  cases call <;> rfl

theorem connector_callAll (calls : List QueueCall) :
    (o.callAll calls).connector = o.connector := by
  induction calls generalizing o with
  | nil => rfl
  | cons call calls ih => exact (ih _).trans (connector_call o call)

theorem connector_follow (args : Args) (a : Action) (d : Connector) :
    (o.follow args a d).connector = d := connector_callAll _ _

/-- **The recorded queue is the queue of the connector**, step by step. -/
theorem queue_follow {args : Args} {a : Action} {d : Connector}
    (hqueue : o.queue.map Prod.fst = o.connector.writeQueue)
    (hd : step args a o.connector = some d) :
    (o.follow args a d).queue.map Prod.fst = d.writeQueue := by
  have hcalled : (o.follow args a d).queue.map Prod.fst
      = (calls args a o.connector).foldl QueueCall.apply (o.queue.map Prod.fst) := by
    refine (queue_callAll _ _).trans ?_
    cases a <;> rfl
  rw [hcalled, hqueue, ← step_writeQueue hd]

end Watched

/-! ## The invariant -/

/-- The pushes of a connection are numbered through, and its writes are the first of them. -/
structure Wire.Ordered (w : Wire) : Prop where
  numbers : w.pushed.map Prod.snd = List.range' w.first w.pushed.length
  written : w.written <+: w.pushed

/-- The newest connection has pushed what was taken from the queue and what is still in it; as long
as its writer runs, it has written what was taken. -/
structure Wire.Current (w : Wire) (o : Watched) : Prop where
  pushes : w.first + w.pushed.length = o.pushes
  taken : ∃ taken, w.pushed = taken ++ o.queue ∧ w.written <+: taken ∧
    ((∃ t ∈ o.connector.phase.tasks?, t.writer.outcome? = none) → w.written = taken)

structure Tracked (args : Args) (o : Watched) : Prop where
  login : ∀ w ∈ o.wires, ∃ payloads : List Frame,
    w.pushed.map Prod.fst = (if args.hasAuth then [.login] else []) ++ payloads ∧
      ∀ frame ∈ payloads, frame.IsPayload
  ordered : ∀ w ∈ o.wires, w.Ordered
  apart : o.wires.Pairwise fun later w ↦ w.first + w.pushed.length ≤ later.first
  current : ∀ w ∈ o.wires.head?, w.Current o
  online : o.connector.phase.tasks?.isSome = true → o.wires ≠ []

theorem tracked_fresh (args : Args) : Tracked args {} where
  login := List.forall_mem_nil _
  ordered := List.forall_mem_nil _
  apart := List.Pairwise.nil
  current w hw := by simp at hw
  online h := by simp [RunPhase.tasks?] at h

theorem Wire.Ordered.first_le {w : Wire} (h : w.Ordered) {x : Frame × ℕ} (hx : x ∈ w.written) :
    w.first ≤ x.2 ∧ x.2 < w.first + w.pushed.length := by
  have hmem : x.2 ∈ w.pushed.map Prod.snd := List.mem_map_of_mem (h.written.subset hx)
  rw [h.numbers, List.mem_range'_1] at hmem
  exact hmem

theorem Wire.Ordered.nodup {w : Wire} (h : w.Ordered) : (w.written.map Prod.snd).Nodup := by
  refine List.Nodup.sublist (h.written.sublist.map Prod.snd) ?_
  rw [h.numbers]
  exact List.nodup_range'

theorem Tracked.isolated {args : Args} {o : Watched} (h : Tracked args o)
    (hqueue : o.queue.map Prod.fst = o.connector.writeQueue) : Isolated args o where
  queue := hqueue
  inOrder w hw := (h.ordered w hw).written
  login := h.login
  cleared w hw x hx := ((h.ordered w hw).first_le hx).1
  clearedLater := by
    refine h.apart.imp_of_mem fun {later w} hlater _ hle x hx ↦ ?_
    have hx := ((h.ordered later hlater).first_le hx).1
    omega
  once := by
    rw [List.map_flatMap, List.nodup_flatMap]
    refine ⟨fun w hw ↦ (h.ordered w hw).nodup, h.apart.imp_of_mem fun {later w} hlater hw hle ↦ ?_⟩
    intro n hn hn'
    obtain ⟨x, hx, rfl⟩ := List.mem_map.mp hn
    obtain ⟨y, hy, heq⟩ := List.mem_map.mp hn'
    have hx := (h.ordered later hlater).first_le hx
    have hy := (h.ordered w hw).first_le hy
    omega

/-! ## The steps keep the invariant -/

namespace Tracked

variable {args : Args} {o : Watched} {d : Connector}

/-- A step on the newest connection. -/
theorem of_head (h : Tracked args o) {w v : Wire} {older : List Wire}
    (hwires : o.wires = w :: older) {u : Watched} (hu : u.wires = v :: older)
    (hfirst : v.first = w.first)
    (hlogin : ∃ payloads : List Frame,
      v.pushed.map Prod.fst = (if args.hasAuth then [.login] else []) ++ payloads ∧
        ∀ frame ∈ payloads, frame.IsPayload)
    (hordered : v.Ordered) (hcurrent : v.Current u) : Tracked args u where
  login := by
    have hall := h.login
    rw [hwires, List.forall_mem_cons] at hall
    rw [hu]
    exact List.forall_mem_cons.mpr ⟨hlogin, hall.2⟩
  ordered := by
    have hall := h.ordered
    rw [hwires, List.forall_mem_cons] at hall
    rw [hu]
    exact List.forall_mem_cons.mpr ⟨hordered, hall.2⟩
  apart := by
    have hapart := h.apart
    rw [hwires, List.pairwise_cons] at hapart
    rw [hu, List.pairwise_cons, hfirst]
    exact hapart
  current x hx := by
    rw [hu] at hx
    obtain rfl : v = x := Option.some_inj.mp hx
    exact hcurrent
  online _ := by
    rw [hu]
    exact List.cons_ne_nil _ _

theorem online_of_running (h : Tracked args o)
    (hrunning : ∃ t ∈ o.connector.phase.tasks?, t.writer.outcome? = none) : o.wires ≠ [] := by
  obtain ⟨t, ht, -⟩ := hrunning
  exact h.online (Option.isSome_iff_exists.mpr ⟨t, ht⟩)

/-- The tasks of the connector change. A writer that runs then was running before. -/
theorem of_connector (h : Tracked args o)
    (honline : d.phase.tasks?.isSome = true → o.connector.phase.tasks?.isSome = true)
    (hwriter : (∃ t ∈ d.phase.tasks?, t.writer.outcome? = none) →
      ∃ t ∈ o.connector.phase.tasks?, t.writer.outcome? = none) :
    Tracked args { o with connector := d } where
  login := h.login
  ordered := h.ordered
  apart := h.apart
  current w hw := by
    obtain ⟨taken, hpushed, hwritten, hopen⟩ := (h.current w hw).taken
    exact ⟨(h.current w hw).pushes, taken, hpushed, hwritten, hopen ∘ hwriter⟩
  online := h.online ∘ honline

theorem of_keepsWriter (h : Tracked args o) (hd : KeepsWriter o.connector d) :
    Tracked args { o with connector := d } := by
  refine h.of_connector (fun hsome ↦ ?_) ?_
  · obtain ⟨t', ht'⟩ := Option.isSome_iff_exists.mp hsome
    obtain ⟨t, ht, -⟩ := hd t' ht'
    exact Option.isSome_iff_exists.mpr ⟨t, ht⟩
  · rintro ⟨t', ht', hrunning⟩
    obtain ⟨t, ht, houtcome⟩ := hd t' ht'
    exact ⟨t, ht, houtcome.symm.trans hrunning⟩

theorem push_ordered {w : Wire} (h : w.Ordered) (hpushes : w.first + w.pushed.length = o.pushes)
    (arg : Frame) : (w.push (arg, o.pushes)).Ordered where
  numbers := by
    rw [Wire.push, List.map_append, h.numbers, List.length_append, List.length_singleton,
      List.range'_1_concat, hpushes, List.map_singleton]
  written := h.written.trans (List.prefix_append _ _)

theorem push (h : Tracked args o) {arg : Frame} (harg : arg.IsPayload) :
    Tracked args (o.call (.push arg)) := by
  cases hwires : o.wires with
  | nil =>
    refine ⟨?_, ?_, ?_, ?_, fun hsome ↦ absurd hwires (h.online hsome)⟩
    all_goals simp [Watched.call, hwires]
  | cons w older =>
    have hw : w ∈ o.wires := hwires ▸ List.mem_cons_self
    have hcurrent := h.current w (by simp [hwires])
    obtain ⟨payloads, hlogin, hpayloads⟩ := h.login w hw
    obtain ⟨taken, hpushed, hwritten, hopen⟩ := hcurrent.taken
    refine h.of_head (v := w.push (arg, o.pushes)) hwires ?_ rfl
      ⟨payloads ++ [arg], ?_,
        List.forall_mem_append.mpr ⟨hpayloads, List.forall_mem_singleton.mpr harg⟩⟩
      (push_ordered (h.ordered w hw) hcurrent.pushes arg) ⟨?_, taken, ?_, hwritten, hopen⟩
    · rw [Watched.call, hwires, List.modifyHead_cons]
    · rw [Wire.push, List.map_append, hlogin, List.append_assoc, List.map_singleton]
    · simp only [Wire.push, Watched.call, List.length_append, List.length_singleton]
      have hpushes := hcurrent.pushes
      omega
    · simp only [Wire.push, Watched.call, hpushed, List.append_assoc]

/-- A step that only sends keeps what the connections have. -/
theorem sends (h : Tracked args o) {calls : List QueueCall}
    (hcalls : ∀ call ∈ calls, call.SendsOnly) : Tracked args (o.callAll calls) := by
  induction calls generalizing o with
  | nil => exact h
  | cons call calls ih =>
    obtain ⟨hcall, hrest⟩ := List.forall_mem_cons.mp hcalls
    cases call with
    | push arg => exact ih (h.push hcall) hrest
    | cancel => exact ih h hrest
    | clear => exact hcall.elim
    | pop => exact hcall.elim
    | resume => exact hcall.elim

theorem le_pushes (h : Tracked args o) : ∀ v ∈ o.wires, v.first + v.pushed.length ≤ o.pushes := by
  intro v hv
  cases hwires : o.wires with
  | nil => simp [hwires] at hv
  | cons w older =>
    have hpushes := (h.current w (by simp [hwires])).pushes
    have hapart := h.apart
    rw [hwires, List.pairwise_cons] at hapart
    rw [hwires] at hv
    rcases List.mem_cons.mp hv with rfl | hv
    · exact hpushes.le
    · have hle := hapart.1 v hv
      omega

/-- A connection begins: `clear()` leaves it an empty queue, to which the login frame is pushed
first. -/
theorem connected (h : Tracked args o) (d : Connector) :
    Tracked args ({ o.connect with connector := d }.callAll
      (.clear :: if args.hasAuth then [.push .login] else [])) := by
  by_cases hauth : args.hasAuth = true
  · rw [if_pos hauth]
    refine ⟨?_, ?_, List.pairwise_cons.mpr ⟨h.le_pushes, h.apart⟩, ?_, fun _ ↦
      List.cons_ne_nil _ _⟩
    · refine List.forall_mem_cons.mpr ⟨⟨[], ?_, List.forall_mem_nil _⟩, h.login⟩
      rw [if_pos hauth]
      rfl
    · exact List.forall_mem_cons.mpr ⟨⟨rfl, List.nil_prefix⟩, h.ordered⟩
    · intro w hw
      obtain rfl : _ = w := Option.some_inj.mp hw
      exact ⟨rfl, [], rfl, List.nil_prefix, fun _ ↦ rfl⟩
  · rw [if_neg hauth]
    refine ⟨?_, ?_, List.pairwise_cons.mpr ⟨h.le_pushes, h.apart⟩, ?_, fun _ ↦
      List.cons_ne_nil _ _⟩
    · refine List.forall_mem_cons.mpr ⟨⟨[], ?_, List.forall_mem_nil _⟩, h.login⟩
      rw [if_neg hauth]
      rfl
    · exact List.forall_mem_cons.mpr ⟨⟨rfl, List.nil_prefix⟩, h.ordered⟩
    · intro w hw
      obtain rfl : _ = w := Option.some_inj.mp hw
      exact ⟨rfl, [], rfl, List.nil_prefix, fun _ ↦ rfl⟩

/-- The writer takes the first frame of the queue, and writes it unless it has been cancelled. -/
theorem take (h : Tracked args o)
    (hrunning : ∃ t ∈ o.connector.phase.tasks?, t.writer.outcome? = none) {x : Frame × ℕ}
    {rest : List (Frame × ℕ)} (hqueue : o.queue = x :: rest) {started : List (Frame × ℕ)}
    (hstarted : started = [x] ∨
      started = [] ∧ ∀ t ∈ d.phase.tasks?, t.writer.outcome? ≠ none) :
    Tracked args (Watched.write { o with connector := d, queue := rest } started) := by
  obtain ⟨w, older, hwires⟩ := List.exists_cons_of_ne_nil (h.online_of_running hrunning)
  have hw : w ∈ o.wires := hwires ▸ List.mem_cons_self
  have hcurrent := h.current w (by simp [hwires])
  obtain ⟨taken, hpushed, -, hopen⟩ := hcurrent.taken
  have hwritten : w.written = taken := hopen hrunning
  have hpushed' : w.pushed = (taken ++ [x]) ++ rest := by
    rw [hpushed, hqueue, List.append_assoc, List.singleton_append]
  -- what is written now is what was taken, or the frame is lost
  have hwrite : (w.write started).written <+: taken ++ [x] ∧
      ((∃ t ∈ d.phase.tasks?, t.writer.outcome? = none) →
        (w.write started).written = taken ++ [x]) := by
    rcases hstarted with rfl | ⟨rfl, hended⟩
    · rw [Wire.write, hwritten]
      exact ⟨List.prefix_refl _, fun _ ↦ rfl⟩
    · rw [Wire.write, hwritten, List.append_nil]
      refine ⟨List.prefix_append _ _, ?_⟩
      rintro ⟨t', ht', hnone⟩
      exact absurd hnone (hended t' ht')
  refine h.of_head (v := w.write started) hwires ?_ rfl (h.login w hw)
    ⟨(h.ordered w hw).numbers, ?_⟩ ⟨hcurrent.pushes, taken ++ [x], hpushed', hwrite⟩
  · rw [Watched.write, hwires, List.modifyHead_cons]
  · refine hwrite.1.trans ?_
    rw [Wire.write, hpushed']
    exact List.prefix_append _ _

end Tracked

theorem Watched.write_nil (o : Watched) : o.write [] = o := by
  have hwrite (w : Wire) : w.write [] = w := by rw [Wire.write, List.append_nil]
  rcases o with ⟨connector, pushes, queue, _ | ⟨w, older⟩⟩
  · rfl
  · rw [write, List.modifyHead_cons, hwrite]

/-- What a step of the writer leaves of the record. -/
theorem Tracked.writer {args : Args} {o : Watched} {d : Connector} {calls : List QueueCall}
    (h : Tracked args o) (hqueue : o.queue.map Prod.fst = o.connector.writeQueue)
    (hrunning : ∃ t ∈ o.connector.phase.tasks?, t.writer.outcome? = none)
    (hstep : WriterStep calls o.connector d) :
    Tracked args (({ o with connector := d }.callAll calls).write
      (d.writing?.toList.zip (o.queue.map Prod.snd))) := by
  have htail {calls : List QueueCall} (hlooks : Looks calls) :
      ({ o with connector := d } : Watched).callAll calls
        = { o with connector := d, queue := o.queue.tail } := by
    rcases hlooks with rfl | rfl <;> rfl
  have hended : Tracked args { o with connector := d } :=
    h.of_connector (fun _ ↦ by
      obtain ⟨t, ht, -⟩ := hrunning
      exact Option.isSome_iff_exists.mpr ⟨t, ht⟩) fun _ ↦ hrunning
  -- the front of the recorded queue is the frame that the writer takes
  have hfront {frame : Frame} {rest : List Frame} (hcons : o.connector.writeQueue = frame :: rest) :
      ∃ n tail, o.queue = (frame, n) :: tail := by
    rw [hcons, List.map_eq_cons_iff] at hqueue
    obtain ⟨⟨_, n⟩, tail, hqueue, rfl, -⟩ := hqueue
    exact ⟨n, tail, hqueue⟩
  cases hstep with
  | ends hcalls hidle =>
    rw [hcalls, hidle]
    exact (Watched.write_nil _).symm ▸ hended
  | waits hlooks hnil hidle =>
    have hempty : o.queue = [] := List.map_eq_nil_iff.mp (hqueue.trans hnil)
    have hsame : ({ o with connector := d, queue := o.queue.tail } : Watched)
        = { o with connector := d } := by rw [hempty, List.tail_nil]
    rw [htail hlooks, hidle, hsame]
    exact (Watched.write_nil _).symm ▸ hended
  | writes hlooks hcons hwriting =>
    obtain ⟨n, tail, hqueue⟩ := hfront hcons
    rw [htail hlooks, hwriting, hqueue]
    exact h.take hrunning hqueue (.inl rfl)
  | loses hlooks hcons hidle hended =>
    obtain ⟨n, tail, hqueue⟩ := hfront hcons
    rw [htail hlooks, hidle, hqueue]
    exact h.take hrunning hqueue (.inr ⟨rfl, hended⟩)

theorem follow_tracked {args : Args} {a : Action} {o : Watched} {d : Connector}
    (h : Tracked args o) (hqueue : o.queue.map Prod.fst = o.connector.writeQueue)
    (hd : step args a o.connector = some d) : Tracked args (o.follow args a d) := by
  by_cases hwriter : a.isWriter = true
  · have hfollow : o.follow args a d = ({ o with connector := d }.callAll
        (calls args a o.connector)).write (d.writing?.toList.zip (o.queue.map Prod.snd)) := by
      cases a <;> simp_all [Action.isWriter, Watched.follow]
    rw [hfollow]
    obtain ⟨hrunning, hmove⟩ := writer_step hwriter hd
    exact h.writer hqueue hrunning hmove
  rw [Bool.not_eq_true] at hwriter
  by_cases hconnected : ∃ ok order, a = .connected ok order
  · obtain ⟨ok, order, rfl⟩ := hconnected
    have hfollow : o.follow args (.connected ok order) d
        = Watched.callAll ({ o.connect with connector := d }.callAll
            (.clear :: if args.hasAuth then [.push .login] else []))
          (((o.connector.opened args ok).notifyPushes .up order).map .push) := by
      refine (Watched.write_nil _).trans ?_
      exact List.foldl_append
    rw [hfollow]
    exact (h.connected d).sends
      (sendsOnly_map_push (Connector.broadcastPushes_isPayload _ _ order))
  · have hother (ok : Bool) (order : List ChannelMarketPair) : a ≠ .connected ok order :=
      fun heq ↦ hconnected ⟨ok, order, heq⟩
    have hfollow : o.follow args a d
        = { o with connector := d }.callAll (calls args a o.connector) := by
      refine Eq.trans ?_ (Watched.write_nil _)
      cases a with
      | connected ok order => exact absurd rfl (hother ok order)
      | _ => simp_all [Action.isWriter, Watched.follow]
    rw [hfollow]
    exact (h.of_keepsWriter (step_keepsWriter hwriter hother hd)).sends
      (calls_sendsOnly hwriter hother _)

theorem watchStep_tracked {args : Args} {a : Action} {o u : Watched}
    (h : o.queue.map Prod.fst = o.connector.writeQueue ∧ Tracked args o)
    (hstep : watchStep args a o = some u) :
    u.queue.map Prod.fst = u.connector.writeQueue ∧ Tracked args u := by
  obtain ⟨d, hd, rfl⟩ := Option.map_eq_some_iff.mp hstep
  refine ⟨?_, follow_tracked h.2 h.1 hd⟩
  rw [Watched.connector_follow]
  exact o.queue_follow h.1 hd

/-- **Messages never cross connections**, in any run. -/
theorem run_isolated {args : Args} {actions : List Action} {c : Connector}
    (hrun : run args actions = some c) :
    ∃ o, watch args actions = some o ∧ o.connector = c ∧ Isolated args o := by
  have hwatchStep (a : Action) (o : Watched) :
      (watchStep args a o).map Watched.connector = step args a o.connector := by
    have hid : Watched.connector ∘ o.follow args a = id := funext (o.connector_follow args a)
    rw [watchStep, Option.map_map, hid, Option.map_id_fun, id]
  have hwatch : (watch args actions).map Watched.connector = some c :=
    (exec_map Watched.connector hwatchStep actions {}).trans hrun
  obtain ⟨o, ho, rfl⟩ := Option.map_eq_some_iff.mp hwatch
  obtain ⟨hqueue, htracked⟩ :=
    exec_invariant (fun o ↦ o.queue.map Prod.fst = o.connector.writeQueue ∧ Tracked args o)
      watchStep_tracked ⟨rfl, tracked_fresh args⟩ ho
  exact ⟨o, ho, rfl, htracked.isolated hqueue⟩

/-- The first write of a connection, a ping, fails. Frames are pushed while its tasks end and while
there is no connection, and another connection comes up. -/
def lateSends : List Action :=
  [.reconnect, .connected true [], .beginReader, .beginWriter, .beginPinger, .resumeWriter,
    .written false, .send (ascii "late"), .pongTimeout, .readError [], .join [],
    .send (ascii "offline"), .reconnect, .connected true [], .send (ascii "next"), .beginWriter,
    .written true]

/-- Of the four frames pushed, those with the numbers 1 and 2 are never written. -/
theorem run_isolated_lateSends :
    ∃ o, watch {} lateSends = some o ∧ Isolated {} o ∧ o.pushes = 4 ∧ o.queue = [] ∧
      o.wires.map (fun w ↦ (w.first, w.written.map Prod.snd)) = [(3, [3]), (0, [0])] := by
  obtain ⟨o, ho, -, h⟩ := @run_isolated {} lateSends _ rfl
  have hrecord : (watch {} lateSends).map (fun o ↦
      (o.pushes, o.queue.length, o.wires.map fun w ↦ (w.first, w.written.map Prod.snd))) =
        some (4, 0, [(3, [3]), (0, [0])]) := by decide
  rw [ho, Option.map_some, Option.some_inj, Prod.mk.injEq, Prod.mk.injEq,
    List.length_eq_zero_iff] at hrecord
  exact ⟨o, ho, h, hrecord⟩

end Ftx

end BoostConnector
