import BoostConnector.Ftx.WriteQueue
import BoostConnector.Transition.Completion

/-!
# Where the connection loop comes to rest

The actions of `run`, of `reconnect` and of the three tasks are the ones that the connector takes on
its own. It can take one in every state but two kinds (`run_stuck_iff`). In one of them `run` has
finished, which it does only after `stop`. In the other the reader and the keep-alive have returned
and the writer sleeps beside an empty queue: the connection is over, and nobody opens the next one
until somebody sends. After `stop` the second kind is out of reach, and `run` finishes within four
actions of its own, in whatever state it was and whatever else happens (`run_stops`).
-/

namespace BoostConnector

namespace Ftx

open Transition

/-- The actions of `run`, `reconnect` and the tasks. The others are those of the users of the
connector. -/
def Action.isLoop : Action → Bool
  | .reconnect | .connected _ _ | .join _ => true
  | .beginReader | .readMessage _ | .readError _ => true
  | .beginWriter | .resumeWriter | .written _ => true
  | .beginPinger | .pongPopped | .pongTimeout | .pingDue => true
  | .start _ | .stop _ | .settle _ | .resume _ _ | .send _ | .drop | .requestStop => false

/-! ## What a stop and an exception leave behind -/

/-- The tasks are cancelled by a stop and by an exception of the reader, and the keep-alive lets no
exception escape. -/
structure Tasks.Settled (t : Tasks) (stopRequested : Bool) : Prop where
  stopped : stopRequested = true → t.cancelled = true
  reader : t.reader = .ended .threw → t.cancelled = true
  pinger : t.pinger ≠ .ended .threw

namespace Tasks.Settled

variable {t : Tasks} {stopRequested : Bool}

theorem fresh : Tasks.Settled {} false where
  stopped h := by simp at h
  reader h := by simp at h
  pinger h := by simp at h

theorem setWriter (h : t.Settled stopRequested) (w : Writer) :
    Tasks.Settled { t with writer := w } stopRequested where
  stopped := h.stopped
  reader := h.reader
  pinger := h.pinger

theorem setReader (h : t.Settled stopRequested) {r : Reader} (hr : r ≠ .ended .threw) :
    Tasks.Settled { t with reader := r } stopRequested where
  stopped := h.stopped
  reader := fun hthrew ↦ absurd hthrew hr
  pinger := h.pinger

theorem setPinger (h : t.Settled stopRequested) {p : Pinger} (hp : p ≠ .ended .threw) :
    Tasks.Settled { t with pinger := p } stopRequested where
  stopped := h.stopped
  reader := h.reader
  pinger := hp

theorem of_cancelled (hcancelled : t.cancelled = true) (hpinger : t.pinger ≠ .ended .threw)
    (stopRequested : Bool) : t.Settled stopRequested where
  stopped _ := hcancelled
  reader _ := hcancelled
  pinger := hpinger

theorem startRead (h : t.Settled stopRequested) : t.startRead.Settled stopRequested := by
  unfold Tasks.startRead
  split_ifs
  · exact .of_cancelled (t := t.endReader .threw) rfl h.pinger _
  · exact h.setReader (by simp)

theorem of_writerMoves {t' : Tasks} (h : t.Settled stopRequested) (hmoves : t.WriterMoves t') :
    t'.Settled stopRequested := by
  rcases hmoves with rfl | ⟨w, -, rfl⟩
  · exact .of_cancelled (t := t.endWriter .threw) rfl h.pinger _
  · exact h.setWriter w

theorem of_pingerMoves {t' : Tasks} (h : t.Settled stopRequested) (hmoves : t.PingerMoves t') :
    t'.Settled stopRequested := by
  obtain ⟨p, hp, rfl⟩ := hmoves
  refine h.setPinger ?_
  rintro rfl
  exact hp rfl

end Tasks.Settled

/-- `run` finishes only after a stop, and the tasks are settled. -/
structure Connector.Settled (c : Connector) : Prop where
  finished : c.phase = .finished → c.stopRequested = true
  tasks : ∀ t ∈ c.phase.tasks?, t.Settled c.stopRequested

namespace Connector

variable {args : Args} {a : Action} {c d : Connector}

theorem settled_of_online {t : Tasks} (hphase : d.phase = .online t)
    (ht : t.Settled d.stopRequested) : d.Settled where
  finished h := by
    rw [hphase] at h
    simp at h
  tasks t' ht' := by
    rw [hphase, RunPhase.tasks?, Option.mem_some_iff] at ht'
    exact ht' ▸ ht

/-- The tasks are modified and the phase stays. -/
theorem Settled.modifyTasks (h : c.Settled) {f : Tasks → Tasks}
    (hf : ∀ t : Tasks, t.Settled c.stopRequested → (f t).Settled c.stopRequested) :
    (c.modifyTasks f).Settled := by
  rcases c.offline_or_online with ⟨hnone, hphase⟩ | ⟨t, hphase⟩
  · exact ⟨fun hfinished ↦ h.finished ((hphase f).symm.trans hfinished),
      fun t ht ↦ h.tasks t ((hphase f) ▸ ht)⟩
  · exact settled_of_online (phase_modifyTasks hphase f) (hf t (h.tasks t (tasks_of_online hphase)))

theorem Settled.of_keeps (h : c.Settled)
    (hphase : d.phase = c.phase ∨ d.phase = c.phase.mapTasks Tasks.wakeWriter)
    (hstop : d.stopRequested = c.stopRequested) : d.Settled := by
  have hof {e : Connector} (he : e.Settled) (hp : d.phase = e.phase)
      (hs : e.stopRequested = c.stopRequested) : d.Settled := by
    refine ⟨fun hfinished ↦ ?_, fun t ht ↦ ?_⟩
    · rw [hstop, ← hs]
      exact he.finished (hp ▸ hfinished)
    · rw [hstop, ← hs]
      exact he.tasks t (hp ▸ ht)
  rcases hphase with hphase | hphase
  · exact hof h hphase rfl
  · exact hof (h.modifyTasks (f := Tasks.wakeWriter) fun t ht ↦ ht.setWriter _) hphase rfl

theorem Settled.of_undisturbed (hc : c.Settled) (h : Undisturbed c d) : d.Settled :=
  hc.of_keeps h.phase h.stopRequested

theorem settled_leaveReconnect (c : Connector) : c.leaveReconnect.Settled where
  finished h := by
    unfold leaveReconnect at h ⊢
    dsimp only at h ⊢
    split_ifs at h with hstop
    exact hstop
  tasks t ht := absurd ht not_mem_tasks_leaveReconnect

theorem step_settled (hc : c.Settled) (h : step args a c = some d) : d.Settled := by
  by_cases ha : a.IsConnection
  · cases connection_move ha h with
    | send payload => exact hc.of_keeps (.inr rfl) rfl
    | drop => exact hc.of_undisturbed (perform_undisturbed c .drop)
    | requestStop =>
      -- the tasks that a stop finds are cancelled
      rcases c.offline_or_online with ⟨hnone, hphase⟩ | ⟨t, hphase⟩
      · refine ⟨fun _ ↦ rfl, fun t ht ↦ ?_⟩
        rw [requestStop, modifyTasks, hphase, hnone] at ht
        exact absurd ht (by simp)
      · refine settled_of_online (t := t.cancel) ?_ (.of_cancelled rfl ?_ _)
        · rw [requestStop, modifyTasks, hphase, RunPhase.mapTasks]
        · exact (hc.tasks t (tasks_of_online hphase)).pinger
    | stopped hphase hstop => exact ⟨fun _ ↦ hstop, fun t ht ↦ by simp [RunPhase.tasks?] at ht⟩
    | connecting hphase hstop =>
      exact ⟨fun h ↦ by simp at h, fun t ht ↦ by simp [RunPhase.tasks?] at ht⟩
    | badUrl hphase hstop => exact settled_leaveReconnect c
    | abandoned hphase hwalks hstop => exact settled_leaveReconnect _
    | @announced ok order hphase hwalks hstop =>
      refine settled_of_online rfl ?_
      have hsame : ((c.opened args ok).notifyConnectionState .up order).stopRequested = false :=
        (notifyConnectionState_undisturbed (c.opened args ok) .up order).stopRequested.trans hstop
      exact hsame ▸ .fresh
    | beginReader hphase ht => exact hc.modifyTasks fun t ht ↦ ht.startRead
    | @readMessage t msg hphase ht =>
      have hhandled := hc.of_undisturbed (handleMessage_undisturbed c msg)
      exact hhandled.modifyTasks fun t ht ↦ ht.startRead
    | @readError t order hphase ht hwalks =>
      have htold := hc.of_undisturbed (broadcast_undisturbed c order .connectionDown)
      exact htold.modifyTasks fun t ht ↦ ht.setReader (by simp)
    | writer hwriter hphase ht =>
      exact settled_of_online rfl ((hc.tasks _ (tasks_of_online hphase)).of_writerMoves ht)
    | pinger hpinger hphase ht =>
      have hsettled := hc.tasks _ (tasks_of_online hphase)
      refine settled_of_online rfl ?_
      rcases ht with ht | ht
      · exact hsettled.of_pingerMoves ht
      · exact (hsettled.setWriter _).of_pingerMoves ht
    | joined hphase ht hwalks => exact settled_leaveReconnect _
    | failed hphase ht => exact settled_leaveReconnect _
  · have hkeeps := keepsConnection ha h
    exact hc.of_keeps hkeeps.phase hkeeps.stopRequested

end Connector

theorem run_settled {args : Args} {actions : List Action} {c : Connector}
    (hrun : run args actions = some c) : c.Settled :=
  exec_invariant Connector.Settled Connector.step_settled
    ⟨fun h ↦ by simp at h, fun t ht ↦ by simp [RunPhase.tasks?] at ht⟩ hrun

/-! ## Coming to rest -/

/-- The tasks of a connection that is over and does not end: nothing is left to read or to wait
for, and the writer sleeps. -/
def Tasks.asleep : Tasks :=
  { reader := .ended .returned, writer := .popping false, pinger := .ended .returned }

/-- Nobody has been cancelled, so no exception has ended a task. -/
theorem Tasks.Settled.eq_asleep {t : Tasks} {stopRequested : Bool} {o o' : Outcome}
    (h : t.Settled stopRequested) (hreader : t.reader = .ended o)
    (hwriter : t.writer = .popping false) (hpinger : t.pinger = .ended o')
    (hlive : t.cancelled = false) : t = asleep := by
  obtain ⟨reader, writer, pinger, cancelled⟩ := t
  dsimp only at hreader hwriter hpinger hlive
  subst hreader hwriter hpinger hlive
  rcases o with _ | _
  · rcases o' with _ | _
    · rfl
    · exact absurd rfl h.pinger
  · exact absurd (h.reader rfl) (by simp)

namespace Connector

variable {args : Args} {c : Connector} {t : Tasks}

/-- An action of a task is enabled if the tasks allow it. -/
theorem enabled_of_tasks {f : Tasks → Option Connector} (hphase : c.phase = .online t)
    (hf : f t ≠ none) : c.phase.tasks?.bind f ≠ none := by
  rwa [hphase, RunPhase.tasks?, Option.bind_some]

theorem reader_ended_of_stuck (hphase : c.phase = .online t)
    (h : Stuck (step args) Action.isLoop c) : ∃ o, t.reader = .ended o := by
  rcases hr : t.reader with _ | _ | o
  · exact absurd (h .beginReader rfl) (enabled_of_tasks hphase (by simp [hr]))
  · exact absurd (h (.readMessage .binary) rfl) (enabled_of_tasks hphase (by simp [hr]))
  · exact ⟨o, rfl⟩

theorem pinger_ended_of_stuck (hphase : c.phase = .online t)
    (h : Stuck (step args) Action.isLoop c) : ∃ o, t.pinger = .ended o := by
  rcases hp : t.pinger with _ | _ | _ | o
  · exact absurd (h .beginPinger rfl) (enabled_of_tasks hphase (by simp [hp]))
  · exact absurd (h .pongTimeout rfl) (enabled_of_tasks hphase (by simp [hp]))
  · exact absurd (h .pingDue rfl) (enabled_of_tasks hphase (by simp [hp]))
  · exact ⟨o, rfl⟩

theorem writer_of_stuck (hphase : c.phase = .online t) (h : Stuck (step args) Action.isLoop c) :
    t.writer = .popping false ∨ ∃ o, t.writer = .ended o := by
  rcases hw : t.writer with _ | (_ | _) | frame | o
  · exact absurd (h .beginWriter rfl) (enabled_of_tasks hphase (by simp [hw]))
  · exact .inl rfl
  · exact absurd (h .resumeWriter rfl) (enabled_of_tasks hphase (by simp [hw]))
  · exact absurd (h (.written true) rfl) (enabled_of_tasks hphase (by simp [hw]))
  · exact .inr ⟨o, rfl⟩

/-- Tasks that have all ended are joined. -/
theorem not_stuck_of_ended (hphase : c.phase = .online t) (hall : t.AllEnded) :
    ¬Stuck (step args) Action.isLoop c := by
  intro h
  refine absurd (h (.join c.channelStates.keys) rfl) (enabled_of_tasks hphase ?_)
  have hwalks : c.Walks c.channelStates.keys := List.Perm.refl _
  have hjoined : t.joined ≠ none := by
    obtain ⟨o, hreader⟩ := Option.ne_none_iff_exists'.mp hall.1
    obtain ⟨o', hwriter⟩ := Option.ne_none_iff_exists'.mp hall.2.1
    obtain ⟨o'', hpinger⟩ := Option.ne_none_iff_exists'.mp hall.2.2
    rw [Tasks.joined, hreader, hwriter, hpinger]
    rcases o <;> rcases o' <;> rcases o'' <;> simp
  rcases hout : t.joined with _ | (_ | _)
  · exact absurd hout hjoined
  · simp [hwalks]
  · simp

end Connector

/-- Where the loop rests. -/
def Connector.Rests (c : Connector) : Prop :=
  (c.phase = .finished ∧ c.stopRequested = true) ∨
    (c.phase = .online .asleep ∧ c.writeQueue = [] ∧ c.stopRequested = false)

theorem Connector.rests_of_stuck {args : Args} {actions : List Action} {c : Connector}
    (hrun : run args actions = some c) (h : Stuck (step args) Action.isLoop c) : c.Rests := by
  have hsettled := run_settled hrun
  rcases hphase : c.phase with _ | _ | t | _ | _
  · exact absurd (h .reconnect rfl) (by simp [step, reconnect, hphase])
  · have hwalks : c.Walks c.channelStates.keys := List.Perm.refl _
    exact absurd (h (.connected true c.channelStates.keys) rfl)
      (by simp [step, connected, hphase, hwalks])
  · have ht := tasks_of_online hphase
    obtain ⟨o, hreader⟩ := reader_ended_of_stuck hphase h
    obtain ⟨o', hpinger⟩ := pinger_ended_of_stuck hphase h
    rcases writer_of_stuck hphase h with hwriter | ⟨o'', hwriter⟩
    · obtain ⟨hqueue, hlive⟩ := sleeping_writer hrun ht hwriter
      refine .inr ⟨?_, hqueue, ?_⟩
      · rw [hphase, (hsettled.tasks t ht).eq_asleep hreader hwriter hpinger hlive]
      · exact Bool.eq_false_iff.mpr fun hstop ↦
          absurd ((hsettled.tasks t ht).stopped hstop) (by simp [hlive])
    · refine absurd h (not_stuck_of_ended hphase ⟨?_, ?_, ?_⟩)
      · simp [hreader, Reader.outcome?]
      · simp [hwriter, Writer.outcome?]
      · simp [hpinger, Pinger.outcome?]
  · exact absurd (h .reconnect rfl) (by simp [step, reconnect, hphase])
  · exact .inl ⟨hphase, hsettled.finished hphase⟩

theorem Connector.stuck_of_rests {args : Args} {c : Connector} (h : c.Rests) :
    Stuck (step args) Action.isLoop c := by
  intro a ha
  rcases h with ⟨hphase, -⟩ | ⟨hphase, -, -⟩
  · rcases a
    all_goals simp only [Action.isLoop, Bool.false_eq_true] at ha
    -- the tasks are gone, and `run` is past its loop
    all_goals simp [step, reconnect, connected, join, beginReader, readMessage, readError,
      beginWriter, resumeWriter, written, beginPinger, pongPopped, pongTimeout, pingDue, hphase,
      RunPhase.tasks?]
  · rcases a
    all_goals simp only [Action.isLoop, Bool.false_eq_true] at ha
    all_goals simp [step, reconnect, connected, join, beginReader, readMessage, readError,
      beginWriter, resumeWriter, written, beginPinger, pongPopped, pongTimeout, pingDue, hphase,
      RunPhase.tasks?, Tasks.asleep, Tasks.joined, Reader.outcome?, Writer.outcome?,
      Pinger.outcome?]

/-- **The loop rests only after a stop or while its writer sleeps** with the other tasks gone. -/
theorem run_stuck_iff {args : Args} {actions : List Action} {c : Connector}
    (hrun : run args actions = some c) :
    Stuck (step args) Action.isLoop c ↔
      (c.phase = .finished ∧ c.stopRequested = true) ∨
        (c.phase = .online .asleep ∧ c.writeQueue = [] ∧ c.stopRequested = false) :=
  ⟨Connector.rests_of_stuck hrun, Connector.stuck_of_rests⟩

/-- The peer closes the connection and answers no ping. The next connection is not opened. -/
def closedByPeer : List Action :=
  [.reconnect, .connected true [], .beginReader, .beginWriter, .beginPinger, .resumeWriter,
    .written true, .readError [], .pongTimeout]

theorem run_stuck_iff_closedByPeer :
    ∃ c, run {} closedByPeer = some c ∧ Stuck (step {}) Action.isLoop c :=
  ⟨_, rfl, (@run_stuck_iff {} closedByPeer _ rfl).mpr (.inr ⟨rfl, rfl, rfl⟩)⟩

/-! ## After a stop -/

/-- The tasks that have not ended. -/
def Tasks.running (t : Tasks) : ℕ :=
  t.reader.outcome?.isNone.toNat + t.writer.outcome?.isNone.toNat + t.pinger.outcome?.isNone.toNat

/-- The actions that the loop still takes once it has been stopped. -/
def Connector.remaining (c : Connector) : ℕ :=
  match c.phase with
  | .idle | .connecting | .delay => 1
  | .online t => t.running + 1
  | .finished => 0

@[simp] theorem Reader.outcome?_ended (o : Outcome) : (ended o).outcome? = some o := rfl

@[simp] theorem Writer.outcome?_ended (o : Outcome) : (ended o).outcome? = some o := rfl

@[simp] theorem Pinger.outcome?_ended (o : Outcome) : (ended o).outcome? = some o := rfl

namespace Tasks

variable {t : Tasks}

theorem running_setWriter {w : Writer} (h : w.outcome? = t.writer.outcome?) :
    Tasks.running { t with writer := w } = t.running := by
  rw [running, running, h]

theorem running_endReader (h : t.reader.outcome? = none) (o : Outcome) :
    (t.endReader o).running + 1 = t.running := by
  have hw := t.writer.outcome?_wake
  rcases o with _ | _
  · simp [endReader, running, h]
    omega
  · simp [endReader, running, h, cancel, hw]
    omega

theorem running_endWriter (h : t.writer.outcome? = none) :
    (t.endWriter .threw).running + 1 = t.running := by
  simp [endWriter, running, h, cancel, Writer.wake]
  omega

theorem running_endPinger (h : t.pinger.outcome? = none) :
    Tasks.running { t with pinger := .ended .returned } + 1 = t.running := by
  simp [running, h]

theorem running_of_joined {o : Outcome} (h : t.joined = some o) : t.running = 0 := by
  unfold joined at h
  split at h
  · rename_i hreader hwriter hpinger
    simp [running, hreader, hwriter, hpinger]
  · rename_i hreader hwriter hpinger
    simp [running, hreader, hwriter, hpinger]
  · simp at h

end Tasks

namespace Connector

variable {args : Args} {a : Action} {c d : Connector} {t : Tasks}

theorem remaining_of_online (hphase : c.phase = .online t) : c.remaining = t.running + 1 := by
  rw [remaining, hphase]

theorem remaining_of_between (hphase : c.phase = .idle ∨ c.phase = .delay) : c.remaining = 1 := by
  rcases hphase with hphase | hphase
  · rw [remaining, hphase]
  · rw [remaining, hphase]

theorem remaining_modifyTasks {f : Tasks → Tasks} (hf : ∀ t, (f t).running = t.running) :
    (c.modifyTasks f).remaining = c.remaining := by
  rcases hphase : c.phase with _ | _ | t | _ | _
  · simp only [remaining, modifyTasks, hphase, RunPhase.mapTasks]
  · simp only [remaining, modifyTasks, hphase, RunPhase.mapTasks]
  · simp only [remaining, modifyTasks, hphase, RunPhase.mapTasks, hf]
  · simp only [remaining, modifyTasks, hphase, RunPhase.mapTasks]
  · simp only [remaining, modifyTasks, hphase, RunPhase.mapTasks]

theorem remaining_of_keeps
    (hphase : d.phase = c.phase ∨ d.phase = c.phase.mapTasks Tasks.wakeWriter) :
    d.remaining = c.remaining := by
  rcases hphase with hphase | hphase
  · rw [remaining, hphase, remaining]
  · have hwoken : d.remaining = (c.modifyTasks Tasks.wakeWriter).remaining := by
      rw [remaining, hphase, remaining, modifyTasks]
    exact hwoken.trans
      (remaining_modifyTasks fun t ↦ Tasks.running_setWriter t.writer.outcome?_wake)

theorem remaining_leaveReconnect (hstop : c.stopRequested = true) :
    c.leaveReconnect.remaining = 0 := by
  rw [remaining, leaveReconnect, if_pos hstop]

/-- A step of the writer finds it cancelled, and ends it. -/
theorem writer_phase_of_cancelled (hphase : c.phase = .online t) (hcancelled : t.cancelled = true)
    (ha : a = .beginWriter ∨ a = .resumeWriter ∨ ∃ ok, a = .written ok)
    (h : step args a c = some d) : t.writer.outcome? = none ∧
      d.phase = .online (t.endWriter .threw) := by
  obtain ⟨t', hphase', hrunning, hcases⟩ := writer_cases ha h
  obtain rfl : t' = t := RunPhase.online.inj (hphase'.symm.trans hphase)
  refine ⟨hrunning, ?_⟩
  have hended : (c.modifyTasks fun _ ↦ t'.endWriter .threw).phase
      = .online (t'.endWriter .threw) := phase_modifyTasks hphase _
  -- `pop` throws, or takes a frame for which `write` throws
  have hpopped : (c.pop t').phase = .online (t'.endWriter .threw) := by
    unfold pop
    simp only [hcancelled, if_true]
    split
    · exact hended
    · exact phase_modifyTasks (c := { c with writeQueue := _ }) hphase _
  rcases hcases with rfl | rfl | rfl
  · rw [startPop, if_pos hcancelled]
    exact hended
  · exact hpopped
  · exact hended

/-- A step of the keep-alive finds it cancelled, and ends it. -/
theorem pinger_remaining_of_cancelled (hphase : c.phase = .online t)
    (hcancelled : t.cancelled = true)
    (ha : a = .beginPinger ∨ a = .pongPopped ∨ a = .pongTimeout ∨ a = .pingDue)
    (h : step args a c = some d) : d.remaining + 1 = c.remaining := by
  obtain ⟨t', hphase', hrunning, hcases⟩ := pinger_cases ha h
  obtain rfl : t' = t := RunPhase.online.inj (hphase'.symm.trans hphase)
  rw [remaining_of_online hphase]
  rcases hcases with rfl | rfl | ⟨-, -, rfl⟩
  · have hd : c.ping.phase = .online { t'.wakeWriter with pinger := .ended .returned } := by
      simp [ping, send, modifyTasks, hphase, RunPhase.mapTasks, Tasks.wakeWriter, hcancelled]
    rw [remaining_of_online hd, Tasks.running_endPinger (t := t'.wakeWriter) hrunning,
      Tasks.wakeWriter, Tasks.running_setWriter t'.writer.outcome?_wake]
  · rw [remaining_of_online (t := { t' with pinger := .ended .returned }),
      Tasks.running_endPinger hrunning]
    simp [modifyTasks, hphase, RunPhase.mapTasks, hcancelled]
  · rw [remaining_of_online (phase_modifyTasks hphase _), Tasks.running_endPinger hrunning]

theorem beginReader_remaining (hphase : c.phase = .online t) (ht : t.reader = .spawned)
    (hcancelled : t.cancelled = true) :
    (c.modifyTasks Tasks.startRead).remaining + 1 = c.remaining := by
  have hread : t.startRead = t.endReader .threw := if_pos hcancelled
  have hended := Tasks.running_endReader (t := t) (by simp [ht, Reader.outcome?]) .threw
  rw [remaining_of_online (phase_modifyTasks hphase _), remaining_of_online hphase, hread, hended]

theorem readMessage_remaining (hphase : c.phase = .online t) (ht : t.reader = .reading)
    (hcancelled : t.cancelled = true) (msg : Message) :
    ((c.handleMessage msg).modifyTasks Tasks.startRead).remaining + 1 = c.remaining := by
  obtain ⟨w, hw, hhandled⟩ :=
    (handleMessage_undisturbed c msg).exists_writer (tasks_of_online hphase)
  have hread : Tasks.startRead { t with writer := w }
      = Tasks.endReader { t with writer := w } .threw := if_pos hcancelled
  rw [remaining_of_online (phase_modifyTasks hhandled _), remaining_of_online hphase, hread,
    Tasks.running_endReader (t := { t with writer := w }) (by simp [ht, Reader.outcome?]),
    Tasks.running_setWriter hw]

theorem readError_remaining (hphase : c.phase = .online t) (ht : t.reader = .reading)
    (order : List ChannelMarketPair) :
    ((c.broadcast order .connectionDown).modifyTasks fun t ↦ t.endReader .returned).remaining + 1
      = c.remaining := by
  obtain ⟨w, hw, htold⟩ :=
    (broadcast_undisturbed c order .connectionDown).exists_writer (tasks_of_online hphase)
  rw [remaining_of_online (phase_modifyTasks htold _), remaining_of_online hphase,
    Tasks.running_endReader (t := { t with writer := w }) (by simp [ht, Reader.outcome?]),
    Tasks.running_setWriter hw]

theorem notifyConnectionState_stopRequested (c : Connector) (s : ConnectionState)
    (order : List ChannelMarketPair) :
    (c.notifyConnectionState s order).stopRequested = c.stopRequested :=
  (notifyConnectionState_undisturbed c s order).stopRequested

/-- **One step after a stop.** -/
theorem step_remaining (hc : c.Settled) (hstop : c.stopRequested = true)
    (h : step args a c = some d) :
    d.stopRequested = true ∧ d.remaining + (if a.isLoop then 1 else 0) = c.remaining := by
  have hcancelled {t : Tasks} (hphase : c.phase = .online t) : t.cancelled = true :=
    (hc.tasks t (tasks_of_online hphase)).stopped hstop
  by_cases ha : a.IsConnection
  · cases connection_move ha h with
    | send payload => exact ⟨hstop, remaining_of_keeps (.inr rfl)⟩
    | drop =>
      have hdrop := perform_undisturbed c .drop
      exact ⟨hdrop.stopRequested.trans hstop, remaining_of_keeps hdrop.phase⟩
    | requestStop =>
      refine ⟨rfl, remaining_modifyTasks (c := { c with stopRequested := true }) fun t ↦ ?_⟩
      exact t.running_setWriter t.writer.outcome?_wake
    | stopped hphase hstop' => exact ⟨hstop, by rw [remaining_of_between hphase]; rfl⟩
    | connecting hphase hlive => exact absurd hstop (by simp [hlive])
    | badUrl hphase hlive => exact absurd hstop (by simp [hlive])
    | @abandoned ok order hphase hwalks hstop' =>
      have hkept := (notifyConnectionState_stopRequested (c.opened args ok) .up order).trans hstop
      refine ⟨hkept, ?_⟩
      rw [remaining_leaveReconnect hkept, remaining, hphase]
      rfl
    | announced hphase hwalks hlive => exact absurd hstop (by simp [hlive])
    | @beginReader t hphase ht =>
      exact ⟨hstop, beginReader_remaining hphase ht (hcancelled hphase)⟩
    | @readMessage t msg hphase ht =>
      exact ⟨(handleMessage_undisturbed c msg).stopRequested.trans hstop,
        readMessage_remaining hphase ht (hcancelled hphase) msg⟩
    | @readError t order hphase ht hwalks =>
      exact ⟨(broadcast_undisturbed c order .connectionDown).stopRequested.trans hstop,
        readError_remaining hphase ht order⟩
    | @writer _ t t' queue hwriter hphase ht =>
      obtain ⟨hrunning, hd⟩ := writer_phase_of_cancelled hphase (hcancelled hphase) hwriter h
      refine ⟨hstop, ?_⟩
      rw [remaining_of_online hd, remaining_of_online hphase, ← Tasks.running_endWriter hrunning]
      rcases hwriter with rfl | rfl | ⟨ok, rfl⟩ <;> rfl
    | @pinger _ t t' queue pong hpinger hphase ht =>
      have hended := pinger_remaining_of_cancelled hphase (hcancelled hphase) hpinger h
      refine ⟨hstop, ?_⟩
      rw [← hended]
      rcases hpinger with rfl | rfl | rfl | rfl <;> rfl
    | @joined t order hphase ht hwalks =>
      have hkept := (notifyConnectionState_stopRequested c .down order).trans hstop
      refine ⟨hkept, ?_⟩
      rw [remaining_leaveReconnect hkept, remaining_of_online hphase, Tasks.running_of_joined ht]
      rfl
    | @failed t order hphase ht =>
      refine ⟨hstop, ?_⟩
      rw [remaining_leaveReconnect hstop, remaining_of_online hphase, Tasks.running_of_joined ht]
      rfl
  · have hkeeps := keepsConnection ha h
    refine ⟨hkeeps.stopRequested.trans hstop, ?_⟩
    have hloop : a.isLoop = false := by
      rcases a <;> simp [Action.IsConnection, Action.isLoop] at ha ⊢
    rw [hloop, remaining_of_keeps hkeeps.phase]
    rfl

end Connector

theorem Connector.remaining_eq_zero_iff {c : Connector} :
    c.remaining = 0 ↔ c.phase = .finished := by
  unfold remaining
  split <;> simp_all

theorem Connector.remaining_le (c : Connector) : c.remaining ≤ 4 := by
  have hle (b : Bool) : b.toNat ≤ 1 := b.toNat_le
  unfold remaining
  split
  · omega
  · omega
  · omega
  · rename_i t _
    have hreader := hle t.reader.outcome?.isNone
    have hwriter := hle t.writer.outcome?.isNone
    have hpinger := hle t.pinger.outcome?.isNone
    unfold Tasks.running
    omega
  · omega

/-- The connector has been stopped somewhere on its run. -/
def Connector.Stopped (args : Args) (c : Connector) : Prop :=
  (∃ actions, run args actions = some c) ∧ c.stopRequested = true

namespace Connector.Stopped

variable {args : Args} {a : Action} {c d : Connector}

theorem step (hc : c.Stopped args) (h : step args a c = some d) :
    d.Stopped args ∧ d.remaining + (if a.isLoop then 1 else 0) = c.remaining := by
  obtain ⟨⟨actions, hrun⟩, hstop⟩ := hc
  obtain ⟨hkept, hremaining⟩ := step_remaining (run_settled hrun) hstop h
  refine ⟨⟨⟨actions ++ [a], ?_⟩, hkept⟩, hremaining⟩
  rw [run, exec_concat, ← run, hrun]
  exact h

/-- A stopped loop rests only after it has finished. -/
theorem not_stuck (hc : c.Stopped args) (hremaining : 0 < c.remaining) :
    ¬Stuck (Ftx.step args) Action.isLoop c := by
  obtain ⟨⟨actions, hrun⟩, hstop⟩ := hc
  intro hstuck
  rcases rests_of_stuck hrun hstuck with ⟨hphase, -⟩ | ⟨-, -, hlive⟩
  · exact absurd (remaining_eq_zero_iff.mpr hphase) (by omega)
  · exact absurd hstop (by simp [hlive])

end Connector.Stopped

/-- **A stop ends the connector.** From then on `run` takes at most four more actions, it has
finished just when it has taken them all, and nothing has to happen for it to take them. -/
theorem run_stops {args : Args} {actions : List Action} {c : Connector}
    (hrun : run args actions = some c) (hstop : c.stopRequested = true) :
    (∃ n ≤ 4, ∀ after d, exec (step args) after c = some d →
      after.countP Action.isLoop ≤ n ∧
        (d.phase = .finished ↔ after.countP Action.isLoop = n)) ∧
      ∃ after d, (∀ a ∈ after, a.isLoop = true) ∧ exec (step args) after c = some d ∧
        d.phase = .finished := by
  have hc : c.Stopped args := ⟨⟨actions, hrun⟩, hstop⟩
  refine ⟨⟨c.remaining, c.remaining_le, fun after d hafter ↦ ?_⟩, ?_⟩
  · obtain ⟨-, hcount⟩ := exec_countdown (p := Action.isLoop) (fun hs h ↦ hs.step h) hc hafter
    rw [← Connector.remaining_eq_zero_iff]
    omega
  · have hprogress {e : Connector} (he : e.Stopped args) (hpos : 0 < e.remaining) :
        ¬Stuck (step args) Action.isLoop e :=
      he.not_stuck hpos
    obtain ⟨after, d, hloop, hafter, hd⟩ :=
      exec_completes (fun hs h ↦ hs.step h) hprogress hc
    exact ⟨after, d, hloop, hafter, Connector.remaining_eq_zero_iff.mp hd⟩

/-- A connector is stopped in the middle of a connection. -/
def stopOnline : List Action :=
  [.reconnect, .connected true [], .beginReader, .beginWriter, .beginPinger, .requestStop]

theorem run_stops_stopOnline :
    ∃ c after d, run {} stopOnline = some c ∧ exec (step {}) after c = some d ∧
      d.phase = .finished := by
  obtain ⟨after, d, -, hafter, hd⟩ := (@run_stops {} stopOnline _ rfl rfl).2
  exact ⟨_, after, d, rfl, hafter, hd⟩

end Ftx

end BoostConnector
