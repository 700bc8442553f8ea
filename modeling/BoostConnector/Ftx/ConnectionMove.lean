import BoostConnector.Ftx.Reconnect

/-!
# What a step of the connection can do

Two facts about the steps of a connector from which its invariants are derived. The calls that a
state machine makes leave the hand-over of channels and the state of the connection alone
(`Undisturbed`), and each step of the connection loop ends in one of a few ways (`ConnectionMove`).
-/

namespace BoostConnector

namespace Ftx

open Handover (Party)

def Subscription.party (s : Subscription) : Party ChannelMarketPair := ⟨s.topic, s.node, s.pc.phase⟩

theorem RunPhase.mapTasks_wakeWriter_idem (p : RunPhase) :
    (p.mapTasks Tasks.wakeWriter).mapTasks Tasks.wakeWriter = p.mapTasks Tasks.wakeWriter := by
  cases p with
  | online t =>
    have hwake : t.writer.wake.wake = t.writer.wake := by
      cases t.writer <;> rfl
    simp only [mapTasks, Tasks.wakeWriter, hwake]
  | _ => rfl

/-- Waking the writer twice is waking it once. -/
theorem RunPhase.mayWakeWriter_trans {p q r : RunPhase}
    (h : q = p ∨ q = p.mapTasks Tasks.wakeWriter) (h' : r = q ∨ r = q.mapTasks Tasks.wakeWriter) :
    r = p ∨ r = p.mapTasks Tasks.wakeWriter := by
  rcases h' with rfl | rfl
  · exact h
  · rcases h with rfl | rfl
    · exact .inr rfl
    · exact .inr (mapTasks_wakeWriter_idem p)

theorem Writer.outcome?_wake (w : Writer) : w.wake.outcome? = w.outcome? := by
  cases w <;> rfl

/-- The asserts of `release_channel`. -/
def Assertion.IsRelease (a : Assertion) : Prop := a = .releaseAcquired ∨ a = .releaseInterest

namespace Connector

variable {c d : Connector}

/-! ## What the calls of the state machines leave alone -/

/-- The hand-over is not touched, the connection keeps its state and its phase, and the only new
failures are those of a state machine's own asserts. -/
structure Undisturbed (c d : Connector) : Prop where
  channelStates : d.channelStates = c.channelStates
  nextNode : d.nextNode = c.nextNode
  parties : d.subs.map Subscription.party = c.subs.map Subscription.party
  connectionState : d.connectionState = c.connectionState
  handshaken : d.handshaken = c.handshaken
  stopRequested : d.stopRequested = c.stopRequested
  notified : d.notified = c.notified
  phase : d.phase = c.phase ∨ d.phase = c.phase.mapTasks Tasks.wakeWriter
  failed : ∀ a ∈ d.failed, a ∈ c.failed ∨ a = .eventUp ∨ a = .eventNotClosed

namespace Undisturbed

theorem refl (c : Connector) : Undisturbed c c where
  channelStates := rfl
  nextNode := rfl
  parties := rfl
  connectionState := rfl
  handshaken := rfl
  stopRequested := rfl
  notified := rfl
  phase := .inl rfl
  failed _ h := .inl h

theorem trans {e : Connector} (h : Undisturbed c d) (h' : Undisturbed d e) : Undisturbed c e where
  channelStates := h'.channelStates.trans h.channelStates
  nextNode := h'.nextNode.trans h.nextNode
  parties := h'.parties.trans h.parties
  connectionState := h'.connectionState.trans h.connectionState
  handshaken := h'.handshaken.trans h.handshaken
  stopRequested := h'.stopRequested.trans h.stopRequested
  notified := h'.notified.trans h.notified
  phase := RunPhase.mayWakeWriter_trans h.phase h'.phase
  failed a ha := by
    rcases h'.failed a ha with ha | ha
    · exact h.failed a ha
    · exact .inr ha

end Undisturbed

theorem Undisturbed.mem_failed_of_isRelease (h : Undisturbed c d) {a : Assertion}
    (hrelease : a.IsRelease) (ha : a ∈ d.failed) : a ∈ c.failed := by
  rcases h.failed a ha with ha | rfl | rfl
  · exact ha
  · simp [Assertion.IsRelease] at hrelease
  · simp [Assertion.IsRelease] at hrelease

theorem mem_failed_check {a b : Assertion} {ok : Bool} (h : a ∈ (c.check b ok).failed) :
    a ∈ c.failed ∨ a = b ∧ ok = false := by
  simp only [check] at h
  split_ifs at h with hok
  · exact .inl h
  · rcases List.mem_append.mp h with h | h
    · exact .inl h
    · exact .inr ⟨List.mem_singleton.mp h, Bool.eq_false_iff.mpr hok⟩

theorem perform_undisturbed (c : Connector) (e : Effect) : Undisturbed c (c.perform e) := by
  cases e with
  | send payload => exact { Undisturbed.refl c with phase := .inr rfl }
  | drop =>
    simp only [perform, drop]
    split_ifs with hdrop
    · exact { Undisturbed.refl c with }
    · exact .refl c
  | assertUp =>
    refine { Undisturbed.refl c with failed := fun a ha ↦ ?_ }
    exact (mem_failed_check ha).imp_right fun h ↦ .inl h.1
  | assertNotClosed =>
    refine { Undisturbed.refl c with failed := fun a ha ↦ ?_ }
    exact (mem_failed_check ha).imp_right fun h ↦ .inr h.1

theorem performAll_undisturbed (c : Connector) (effects : List Effect) :
    Undisturbed c (c.performAll effects) := by
  induction effects generalizing c with
  | nil => exact .refl c
  | cons e effects ih => exact (perform_undisturbed c e).trans (ih _)

theorem perform_subs (c : Connector) (e : Effect) : (c.perform e).subs = c.subs := by
  cases e with
  | drop =>
    simp only [perform, drop]
    split_ifs <;> rfl
  | _ => rfl

@[simp] theorem performAll_subs (c : Connector) (effects : List Effect) :
    (c.performAll effects).subs = c.subs := by
  induction effects generalizing c with
  | nil => rfl
  | cons e effects ih => exact (ih _).trans (perform_subs c e)

theorem setSub_undisturbed {i : ℕ} {s t : Subscription} (hi : c.subs[i]? = some s)
    (hparty : t.party = s.party) : Undisturbed c (c.setSub i t) := by
  refine { Undisturbed.refl c with parties := ?_ }
  rw [setSub, List.map_set, hparty]
  -- the party that is written is the one that was there
  refine List.ext_getElem? fun j ↦ ?_
  rw [List.getElem?_set]
  split_ifs with hj hlt
  · rw [← hj, List.getElem?_map, hi, Option.map_some]
  · rw [← hj, List.getElem?_eq_none (Nat.le_of_not_lt hlt)]
  · rfl

theorem handle_of_sub {i : ℕ} {s : Subscription} (hi : c.subs[i]? = some s) (e : ChannelEvent) :
    c.handle i e = (c.setSub i (s.given e)).performAll (s.sm.processEvent e).2 := by
  rw [handle, hi]

theorem handle_undisturbed (c : Connector) (i : ℕ) (e : ChannelEvent) :
    Undisturbed c (c.handle i e) := by
  cases hi : c.subs[i]? with
  | none =>
    rw [handle, hi]
    exact .refl c
  | some s =>
    rw [handle_of_sub hi]
    exact (setSub_undisturbed (t := s.given e) hi rfl).trans (performAll_undisturbed _ _)

theorem tell_undisturbed (c : Connector) (e : ChannelEvent) (index : ChannelMarketPair) :
    Undisturbed c (c.tell e index) := by
  unfold tell
  split
  · split_ifs
    · split
      · exact handle_undisturbed c _ e
      · exact .refl c
    · exact .refl c
  · exact .refl c

theorem broadcast_undisturbed (c : Connector) (order : List ChannelMarketPair) (e : ChannelEvent) :
    Undisturbed c (c.broadcast order e) := by
  induction order generalizing c with
  | nil => exact .refl c
  | cons index order ih => exact (tell_undisturbed c e index).trans (ih _)

theorem notifyConnectionState_undisturbed (c : Connector) (s : ConnectionState)
    (order : List ChannelMarketPair) :
    Undisturbed (c.announce s) (c.notifyConnectionState s order) := broadcast_undisturbed _ _ _

theorem handleMessage_undisturbed (c : Connector) (msg : Message) :
    Undisturbed c (c.handleMessage msg) := by
  cases msg with
  | binary => exact .refl c
  | text jframe? =>
    simp only [handleMessage]
    split
    · exact { Undisturbed.refl c with }
    · split
      · exact { Undisturbed.refl c with }
      · exact { Undisturbed.refl c with }
      · exact tell_undisturbed c _ _

/-! ## What the steps of a subscription can do -/

theorem cancelOne_cases {index : ChannelMarketPair} {node : ℕ} {wake : Option ℕ}
    (h : c.cancelOne index node wake = some d) :
    (wake = none ∧ d = c ∧ ¬∃ s ∈ c.subs, s.WaitsOn index node) ∨
      ∃ j s, wake = some j ∧ c.subs[j]? = some s ∧ s.WaitsOn index node ∧
        d = c.setSub j { s with pc := s.pc.wake } := by
  cases wake with
  | none =>
    rw [cancelOne] at h
    split_ifs at h with hidle
    exact .inl ⟨rfl, (Option.some_inj.mp h).symm, hidle⟩
  | some j =>
    rw [cancelOne] at h
    split at h
    · rename_i s hs
      split_ifs at h with hwaits
      exact .inr ⟨j, s, rfl, hs, hwaits, (Option.some_inj.mp h).symm⟩
    · exact absurd h (by simp)

/-- The asserts of `release_channel` on the element. -/
def checkRelease (c : Connector) (cs : ChannelState) : Connector :=
  (c.check .releaseAcquired cs.acquired).check .releaseInterest (cs.interest ≠ 0)

/-- A release removes the element with its last interest, and otherwise completes one wait. -/
theorem releaseChannel_cases {index : ChannelMarketPair} {node : ℕ} {wake : Option ℕ}
    (h : c.releaseChannel index node wake = some d) :
    ∃ cs, c.element index node = some cs ∧
      ((cs.interest - 1 = 0 ∧ wake = none ∧
          d = { c.checkRelease cs with channelStates := c.channelStates.erase index }) ∨
        (cs.interest - 1 ≠ 0 ∧ ((c.checkRelease cs).setChannel index
          { cs with acquired := false, interest := cs.interest - 1 }).cancelOne index node wake
            = some d)) := by
  rw [releaseChannel, Option.bind_eq_bind, Option.bind_eq_some_iff] at h
  obtain ⟨cs, hcs, h⟩ := h
  refine ⟨cs, hcs, ?_⟩
  dsimp only at h
  by_cases hlast : cs.interest - 1 = 0
  · rw [if_pos hlast] at h
    split_ifs at h with hwake
    exact .inl ⟨hlast, hwake, (Option.some_inj.mp h).symm⟩
  · rw [if_neg hlast] at h
    exact .inr ⟨hlast, h⟩

/-- A subscription that awaits its closed latch stays where it is, or releases its channel. -/
theorem awaitClosed_cases {i : ℕ} {s : Subscription} {wake : Option ℕ}
    (h : c.awaitClosed i s wake = some d) :
    d = c ∨ ∃ e, c.releaseChannel s.topic s.node wake = some e ∧
      d = e.setSub i { s with pc := .left } := by
  unfold awaitClosed at h
  split_ifs at h
  · rw [Option.bind_eq_bind, Option.bind_eq_some_iff] at h
    obtain ⟨e, he, h⟩ := h
    exact .inr ⟨e, he, (Option.some_inj.mp h).symm⟩
  · exact .inl (Option.some_inj.mp h).symm

/-- A subscription that awaits its stop latch stays where it is, or closes its machine. -/
theorem awaitStop_cases {i : ℕ} {s : Subscription} {wake : Option ℕ}
    (h : c.awaitStop i s wake = some d) : d = c ∨ c.closeMachine i s wake = some d := by
  unfold awaitStop at h
  split_ifs at h
  · exact .inr h
  · exact .inl (Option.some_inj.mp h).symm

/-- Subscription `i` has set the flag of the element it located and has stored its handler. -/
def taken (c : Connector) (i : ℕ) (s : Subscription) (cs : ChannelState) : Connector :=
  (c.setChannel s.topic { cs with acquired := true, onEvent := some i }).setSub i
    { s with pc := .awaitingStop }

/-- A subscription takes its channel, and its machine is given `connection_up` if it is up. -/
theorem acquire_cases {i : ℕ} {s : Subscription} {wake : Option ℕ}
    (h : c.acquire i s wake = some d) :
    ∃ cs, c.element s.topic s.node = some cs ∧
      ((c.isUp = true ∧ ((c.taken i s cs).handle i .connectionUp).awaitStop i
          (Subscription.given { s with pc := .awaitingStop } .connectionUp) wake = some d) ∨
        (c.isUp = false ∧
          (c.taken i s cs).awaitStop i { s with pc := .awaitingStop } wake = some d)) := by
  rw [acquire, Option.bind_eq_bind, Option.bind_eq_some_iff] at h
  obtain ⟨cs, hcs, h⟩ := h
  refine ⟨cs, hcs, ?_⟩
  have hsame : (c.taken i s cs).isUp = c.isUp := rfl
  dsimp only at h
  rw [← taken, hsame] at h
  split_ifs at h with hup
  · exact .inl ⟨hup, h⟩
  · exact .inr ⟨Bool.eq_false_iff.mpr hup, h⟩

/-- Where `run` goes on when a subscription is resumed. -/
theorem resume_cases {i : ℕ} {wake : Option ℕ} (h : c.resume i wake = some d) :
    ∃ s, c.subs[i]? = some s ∧
      ((s.pc = .spawned ∧ c.enter i s wake = some d) ∨
        (s.pc = .waiting .stopped ∧ d = c.setSub i { s with pc := .left }) ∨
        (s.pc = .waiting .woken ∧ c.acquire i s wake = some d) ∨
        (s.pc = .awaitingStop ∧ c.closeMachine i s wake = some d) ∨
        (s.pc = .awaitingClosed ∧ c.awaitClosed i s wake = some d)) := by
  rw [resume, Option.bind_eq_bind, Option.bind_eq_some_iff] at h
  obtain ⟨s, hi, h⟩ := h
  refine ⟨s, hi, ?_⟩
  split at h
  · rename_i hpc
    exact .inl ⟨hpc, h⟩
  · rename_i hpc
    split_ifs at h
    exact .inr (.inl ⟨hpc, (Option.some_inj.mp h).symm⟩)
  · rename_i hpc
    exact .inr (.inr (.inl ⟨hpc, h⟩))
  · rename_i hpc
    split_ifs at h
    exact .inr (.inr (.inr (.inl ⟨hpc, h⟩)))
  · rename_i hpc
    split_ifs at h
    exact .inr (.inr (.inr (.inr ⟨hpc, h⟩)))
  all_goals exact absurd h (by simp)

/-- A stop decides the race of a subscription that waits, and is only noted by any other. -/
theorem stop_cases {i : ℕ} (h : c.stop i = some d) :
    ∃ s, c.subs[i]? = some s ∧
      ((s.pc = .waiting .suspended ∧
          d = c.setSub i { s with stopLatch := true, pc := .waiting .stopping }) ∨
        d = c.setSub i { s with stopLatch := true }) := by
  rw [stop, Option.bind_eq_bind, Option.bind_eq_some_iff] at h
  obtain ⟨s, hi, h⟩ := h
  refine ⟨s, hi, ?_⟩
  split at h
  · rename_i hpc
    exact .inl ⟨hpc, (Option.some_inj.mp h).symm⟩
  · exact .inr (Option.some_inj.mp h).symm

theorem settle_cases {i : ℕ} (h : c.settle i = some d) :
    ∃ s, c.subs[i]? = some s ∧ s.pc = .waiting .stopping ∧
      d = c.setSub i { s with pc := .waiting .stopped } := by
  rw [settle, Option.bind_eq_bind, Option.bind_eq_some_iff] at h
  obtain ⟨s, hi, h⟩ := h
  split at h
  · rename_i hpc
    exact ⟨s, hi, hpc, (Option.some_inj.mp h).symm⟩
  · exact absurd h (by simp)

/-! ## What the steps of a subscription leave alone -/

/-- The connection keeps its state and its phase, and nothing is announced. -/
structure KeepsConnection (c d : Connector) : Prop where
  connectionState : d.connectionState = c.connectionState
  handshaken : d.handshaken = c.handshaken
  stopRequested : d.stopRequested = c.stopRequested
  notified : d.notified = c.notified
  phase : d.phase = c.phase ∨ d.phase = c.phase.mapTasks Tasks.wakeWriter
  failed : .notifyNewState ∈ d.failed → .notifyNewState ∈ c.failed

theorem Undisturbed.keepsConnection (h : Undisturbed c d) : KeepsConnection c d where
  connectionState := h.connectionState
  handshaken := h.handshaken
  stopRequested := h.stopRequested
  notified := h.notified
  phase := h.phase
  failed ha := by
    rcases h.failed _ ha with ha | ha | ha
    · exact ha
    · exact absurd ha (by decide)
    · exact absurd ha (by decide)

namespace KeepsConnection

theorem refl (c : Connector) : KeepsConnection c c := (Undisturbed.refl c).keepsConnection

theorem trans {e : Connector} (h : KeepsConnection c d) (h' : KeepsConnection d e) :
    KeepsConnection c e where
  connectionState := h'.connectionState.trans h.connectionState
  handshaken := h'.handshaken.trans h.handshaken
  stopRequested := h'.stopRequested.trans h.stopRequested
  notified := h'.notified.trans h.notified
  phase := RunPhase.mayWakeWriter_trans h.phase h'.phase
  failed := h.failed ∘ h'.failed

theorem setSub (c : Connector) (i : ℕ) (s : Subscription) : KeepsConnection c (c.setSub i s) where
  connectionState := rfl
  handshaken := rfl
  stopRequested := rfl
  notified := rfl
  phase := .inl rfl
  failed := id

theorem setChannel (c : Connector) (index : ChannelMarketPair) (cs : ChannelState) :
    KeepsConnection c (c.setChannel index cs) where
  connectionState := rfl
  handshaken := rfl
  stopRequested := rfl
  notified := rfl
  phase := .inl rfl
  failed := id

theorem check (c : Connector) {a : Assertion} (ha : a ≠ .notifyNewState) (ok : Bool) :
    KeepsConnection c (c.check a ok) := by
  refine { refl c with failed := fun hmem ↦ ?_ }
  rcases mem_failed_check hmem with hmem | ⟨heq, -⟩
  · exact hmem
  · exact absurd heq.symm ha

end KeepsConnection

theorem checkRelease_keepsConnection (c : Connector) (cs : ChannelState) :
    KeepsConnection c (c.checkRelease cs) :=
  (KeepsConnection.check c (a := .releaseAcquired) (by decide) cs.acquired).trans
    (.check _ (a := .releaseInterest) (by decide) (cs.interest ≠ 0))

end Connector

/-! ## What a step of the connection can do -/

/-- What a writer can leave behind: it goes on, or it ends with an exception. -/
def Tasks.WriterMoves (t t' : Tasks) : Prop :=
  t' = t.endWriter .threw ∨ ∃ w, w.outcome? = none ∧ t' = { t with writer := w }

/-- What a keep-alive can leave behind: it goes on or returns. -/
def Tasks.PingerMoves (t t' : Tasks) : Prop :=
  ∃ p, p.outcome? ≠ some .threw ∧ t' = { t with pinger := p }

/-- Each constructor is one way a step of the connection can end. -/
inductive ConnectionMove (args : Args) (c : Connector) : Action → Connector → Prop
  | send (payload : Bytes) : ConnectionMove args c (.send payload) (c.send (.text payload))
  | drop : ConnectionMove args c .drop c.drop
  | requestStop : ConnectionMove args c .requestStop c.requestStop
  | stopped (hphase : c.phase = .idle ∨ c.phase = .delay) (hstop : c.stopRequested = true) :
      ConnectionMove args c .reconnect { c with phase := .finished }
  | connecting (hphase : c.phase = .idle ∨ c.phase = .delay) (hstop : c.stopRequested = false) :
      ConnectionMove args c .reconnect
        { c with onDrop := true, handshaken := false, tcpClosed := false, phase := .connecting }
  | badUrl (hphase : c.phase = .idle ∨ c.phase = .delay) (hstop : c.stopRequested = false) :
      ConnectionMove args c .reconnect c.leaveReconnect
  | abandoned {ok : Bool} {order : List ChannelMarketPair}
      (hphase : c.phase = .connecting) (hwalks : c.Walks order) (hstop : c.stopRequested = true) :
      ConnectionMove args c (.connected ok order)
        ((c.opened args ok).notifyConnectionState .up order).leaveReconnect
  | announced {ok : Bool} {order : List ChannelMarketPair}
      (hphase : c.phase = .connecting) (hwalks : c.Walks order) (hstop : c.stopRequested = false) :
      ConnectionMove args c (.connected ok order)
        { (c.opened args ok).notifyConnectionState .up order with phase := .online {} }
  | beginReader {t : Tasks} (hphase : c.phase = .online t) (ht : t.reader = .spawned) :
      ConnectionMove args c .beginReader (c.modifyTasks Tasks.startRead)
  | readMessage {t : Tasks} {msg : Message} (hphase : c.phase = .online t)
      (ht : t.reader = .reading) : ConnectionMove args c (.readMessage msg)
        ((c.handleMessage msg).modifyTasks Tasks.startRead)
  | readError {t : Tasks} {order : List ChannelMarketPair} (hphase : c.phase = .online t)
      (ht : t.reader = .reading) (hwalks : c.Walks order) :
      ConnectionMove args c (.readError order)
        ((c.broadcast order .connectionDown).modifyTasks fun t ↦ t.endReader .returned)
  | writer {a : Action} {t t' : Tasks} {queue : List Frame}
      (ha : a = .beginWriter ∨ a = .resumeWriter ∨ ∃ ok, a = .written ok)
      (hphase : c.phase = .online t) (ht : t.WriterMoves t') :
      ConnectionMove args c a { c with writeQueue := queue, phase := .online t' }
  | pinger {a : Action} {t t' : Tasks} {queue : List Frame} {pong : Option Json.Value}
      (ha : a = .beginPinger ∨ a = .pongPopped ∨ a = .pongTimeout ∨ a = .pingDue)
      (hphase : c.phase = .online t) (ht : t.PingerMoves t' ∨ t.wakeWriter.PingerMoves t') :
      ConnectionMove args c a
        { c with writeQueue := queue, pongBuffer := pong, phase := .online t' }
  | joined {t : Tasks} {order : List ChannelMarketPair} (hphase : c.phase = .online t)
      (ht : t.joined = some .returned) (hwalks : c.Walks order) :
      ConnectionMove args c (.join order) (c.notifyConnectionState .down order).leaveReconnect
  | failed {t : Tasks} {order : List ChannelMarketPair} (hphase : c.phase = .online t)
      (ht : t.joined = some .threw) : ConnectionMove args c (.join order) c.leaveReconnect

namespace Connector

variable {args : Args} {c d : Connector}

theorem phase_eq_online {t : Tasks} (h : c.phase.tasks? = some t) : c.phase = .online t := by
  cases hphase : c.phase with
  | online t' =>
    rw [hphase, RunPhase.tasks?, Option.some_inj] at h
    rw [h]
  | _ => simp [hphase, RunPhase.tasks?] at h

/-- A step of the writer finds it running, and has it pop the queue or end. -/
theorem writer_cases {a : Action}
    (ha : a = .beginWriter ∨ a = .resumeWriter ∨ ∃ ok, a = .written ok)
    (h : step args a c = some d) : ∃ t, c.phase = .online t ∧ t.writer.outcome? = none ∧
      (d = c.startPop t ∨ d = c.pop t ∨ d = c.modifyTasks fun _ ↦ t.endWriter .threw) := by
  rcases ha with rfl | rfl | ⟨ok, rfl⟩
  · obtain ⟨t, ht, h⟩ := Option.bind_eq_some_iff.mp h
    split at h
    · rename_i hw
      exact ⟨t, phase_eq_online ht, by simp [hw, Writer.outcome?], .inl (Option.some_inj.mp h).symm⟩
    · exact absurd h (by simp)
  · obtain ⟨t, ht, h⟩ := Option.bind_eq_some_iff.mp h
    split at h
    · rename_i hw
      exact ⟨t, phase_eq_online ht, by simp [hw, Writer.outcome?],
        .inr (.inl (Option.some_inj.mp h).symm)⟩
    · exact absurd h (by simp)
  · obtain ⟨t, ht, h⟩ := Option.bind_eq_some_iff.mp h
    split at h
    · rename_i hw
      refine ⟨t, phase_eq_online ht, by simp [hw, Writer.outcome?], ?_⟩
      split_ifs at h
      · exact .inl (Option.some_inj.mp h).symm
      · exact .inr (.inr (Option.some_inj.mp h).symm)
    · exact absurd h (by simp)

/-- A step of the keep-alive finds it running. It sends a ping, takes a pong or times out. -/
theorem pinger_cases {a : Action}
    (ha : a = .beginPinger ∨ a = .pongPopped ∨ a = .pongTimeout ∨ a = .pingDue)
    (h : step args a c = some d) : ∃ t, c.phase = .online t ∧ t.pinger.outcome? = none ∧
      (d = c.ping ∨
        (d = { c with pongBuffer := none }.modifyTasks fun t ↦
          { t with pinger := if t.cancelled then .ended .returned else .awaitingTimer }) ∨
        a = .pongTimeout ∧ t.pinger = .awaitingPong ∧
          d = c.modifyTasks fun t ↦ { t with pinger := .ended .returned }) := by
  rcases ha with rfl | rfl | rfl | rfl
  · obtain ⟨t, ht, h⟩ := Option.bind_eq_some_iff.mp h
    split at h
    · rename_i hp
      exact ⟨t, phase_eq_online ht, by simp [hp, Pinger.outcome?], .inl (Option.some_inj.mp h).symm⟩
    · exact absurd h (by simp)
  · obtain ⟨t, ht, h⟩ := Option.bind_eq_some_iff.mp h
    split at h
    · rename_i hp _
      exact ⟨t, phase_eq_online ht, by simp [hp, Pinger.outcome?],
        .inr (.inl (Option.some_inj.mp h).symm)⟩
    · exact absurd h (by simp)
  · obtain ⟨t, ht, h⟩ := Option.bind_eq_some_iff.mp h
    split at h
    · rename_i hp
      exact ⟨t, phase_eq_online ht, by simp [hp, Pinger.outcome?],
        .inr (.inr ⟨rfl, hp, (Option.some_inj.mp h).symm⟩)⟩
    · exact absurd h (by simp)
  · obtain ⟨t, ht, h⟩ := Option.bind_eq_some_iff.mp h
    split at h
    · rename_i hp
      exact ⟨t, phase_eq_online ht, by simp [hp, Pinger.outcome?], .inl (Option.some_inj.mp h).symm⟩
    · exact absurd h (by simp)

theorem beginReconnect_move (hphase : c.phase = .idle ∨ c.phase = .delay) :
    ConnectionMove args c .reconnect (c.beginReconnect args) := by
  unfold beginReconnect
  split_ifs with hstop hurl
  · exact .stopped hphase hstop
  · exact .connecting hphase (Bool.eq_false_iff.mpr hstop)
  · exact .badUrl hphase (Bool.eq_false_iff.mpr hstop)

theorem connected_move {ok : Bool} {order : List ChannelMarketPair}
    (h : c.connected args ok order = some d) : ConnectionMove args c (.connected ok order) d := by
  unfold connected at h
  split at h
  · rename_i hphase
    split_ifs at h with hwalks
    dsimp only at h
    rw [Option.some_inj] at h
    subst h
    have hsame : ((c.opened args ok).notifyConnectionState .up order).stopRequested
        = c.stopRequested := (notifyConnectionState_undisturbed _ .up order).stopRequested
    by_cases hstop : c.stopRequested = true
    · rw [if_pos (hsame.trans hstop)]
      exact .abandoned hphase hwalks hstop
    · rw [if_neg (hsame ▸ hstop)]
      exact .announced hphase hwalks (Bool.eq_false_iff.mpr hstop)
  · exact absurd h (by simp)

theorem pop_move {a : Action} {t : Tasks}
    (ha : a = .beginWriter ∨ a = .resumeWriter ∨ ∃ ok, a = .written ok)
    (hphase : c.phase = .online t) : ConnectionMove args c a (c.pop t) := by
  -- a cancellation is seen when the writer comes back to the queue
  have hmoves (w : Writer) (hw : w.outcome? = none) :
      t.WriterMoves (if t.cancelled then t.endWriter .threw else { t with writer := w }) := by
    split_ifs
    · exact .inl rfl
    · exact .inr ⟨w, hw, rfl⟩
  unfold pop
  split
  · simp only [modifyTasks, hphase, RunPhase.mapTasks]
    exact .writer ha hphase (hmoves _ rfl)
  · simp only [modifyTasks, hphase, RunPhase.mapTasks]
    exact .writer ha hphase (hmoves _ rfl)

theorem endWriter_move {a : Action} {t : Tasks}
    (ha : a = .beginWriter ∨ a = .resumeWriter ∨ ∃ ok, a = .written ok)
    (hphase : c.phase = .online t) :
    ConnectionMove args c a (c.modifyTasks fun _ ↦ t.endWriter .threw) := by
  simp only [modifyTasks, hphase, RunPhase.mapTasks]
  exact .writer ha hphase (.inl rfl)

theorem startPop_move {a : Action} {t : Tasks}
    (ha : a = .beginWriter ∨ a = .resumeWriter ∨ ∃ ok, a = .written ok)
    (hphase : c.phase = .online t) : ConnectionMove args c a (c.startPop t) := by
  unfold startPop
  split_ifs
  · exact endWriter_move ha hphase
  · exact pop_move ha hphase

theorem writer_move {a : Action} (ha : a = .beginWriter ∨ a = .resumeWriter ∨ ∃ ok, a = .written ok)
    (h : step args a c = some d) : ConnectionMove args c a d := by
  obtain ⟨t, hphase, -, rfl | rfl | rfl⟩ := writer_cases ha h
  · exact startPop_move ha hphase
  · exact pop_move ha hphase
  · exact endWriter_move ha hphase

theorem pinger_move {a : Action}
    (ha : a = .beginPinger ∨ a = .pongPopped ∨ a = .pongTimeout ∨ a = .pingDue)
    (h : step args a c = some d) : ConnectionMove args c a d := by
  obtain ⟨t, hphase, -, rfl | rfl | ⟨-, -, rfl⟩⟩ := pinger_cases ha h
  · simp only [ping, send, modifyTasks, hphase, RunPhase.mapTasks]
    refine .pinger ha hphase (.inr ⟨_, ?_, rfl⟩)
    split_ifs <;> simp [Pinger.outcome?]
  · simp only [modifyTasks, hphase, RunPhase.mapTasks]
    refine .pinger ha hphase (.inl ⟨_, ?_, rfl⟩)
    split_ifs <;> simp [Pinger.outcome?]
  · simp only [modifyTasks, hphase, RunPhase.mapTasks]
    exact .pinger ha hphase (.inl ⟨_, by simp [Pinger.outcome?], rfl⟩)

end Connector

/-- **What a step of the connection can do.** -/
theorem connection_move {args : Args} {a : Action} {c d : Connector} (ha : a.IsConnection)
    (h : step args a c = some d) : ConnectionMove args c a d := by
  cases a with
  | start topic => exact ha.elim
  | stop i => exact ha.elim
  | settle i => exact ha.elim
  | resume i wake => exact ha.elim
  | send payload => exact Option.some_inj.mp h ▸ .send payload
  | drop => exact Option.some_inj.mp h ▸ .drop
  | requestStop => exact Option.some_inj.mp h ▸ .requestStop
  | reconnect =>
    rw [step, Connector.reconnect] at h
    split at h
    · rename_i hphase
      exact Option.some_inj.mp h ▸ Connector.beginReconnect_move (.inl hphase)
    · rename_i hphase
      exact Option.some_inj.mp h ▸ Connector.beginReconnect_move (.inr hphase)
    · exact absurd h (by simp)
  | connected ok order => exact Connector.connected_move h
  | beginReader =>
    obtain ⟨t, ht, h⟩ := Option.bind_eq_some_iff.mp h
    split at h
    · exact Option.some_inj.mp h ▸ .beginReader (Connector.phase_eq_online ht) ‹_›
    · exact absurd h (by simp)
  | readMessage msg =>
    obtain ⟨t, ht, h⟩ := Option.bind_eq_some_iff.mp h
    split at h
    · exact Option.some_inj.mp h ▸ .readMessage (Connector.phase_eq_online ht) ‹_›
    · exact absurd h (by simp)
  | readError order =>
    obtain ⟨t, ht, h⟩ := Option.bind_eq_some_iff.mp h
    split at h
    · split_ifs at h with hwalks
      exact Option.some_inj.mp h ▸ .readError (Connector.phase_eq_online ht) ‹_› hwalks
    · exact absurd h (by simp)
  | beginWriter => exact Connector.writer_move (.inl rfl) h
  | resumeWriter => exact Connector.writer_move (.inr (.inl rfl)) h
  | written ok => exact Connector.writer_move (.inr (.inr ⟨ok, rfl⟩)) h
  | beginPinger => exact Connector.pinger_move (.inl rfl) h
  | pongPopped => exact Connector.pinger_move (.inr (.inl rfl)) h
  | pongTimeout => exact Connector.pinger_move (.inr (.inr (.inl rfl))) h
  | pingDue => exact Connector.pinger_move (.inr (.inr (.inr rfl))) h
  | join order =>
    obtain ⟨t, ht, h⟩ := Option.bind_eq_some_iff.mp h
    have hphase := Connector.phase_eq_online ht
    split at h
    · rename_i hjoined
      split_ifs at h with hwalks
      exact Option.some_inj.mp h ▸ .joined hphase hjoined hwalks
    · rename_i hjoined
      exact Option.some_inj.mp h ▸ .failed hphase hjoined
    · exact absurd h (by simp)

end Ftx

end BoostConnector
