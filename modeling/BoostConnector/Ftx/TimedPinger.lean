import BoostConnector.Ftx.PingPong
import BoostConnector.Ftx.Reconnect

/-!
# The keep-alive in the connection loop

The connection loop has `run_ping_pong` as one of its tasks, without a clock: a wait on a timer ends
whenever the environment says so. The keep-alive against the clock does no more than that. Each of
its runs is answered by one of the connection loop, in which the reader reads the pongs and the
pinger takes its steps (`run_followed`), with the same pings in the write queue.
-/

namespace BoostConnector

namespace Ftx

/-- Where the task of the connection loop is. -/
def PingPhase.pinger : PingPhase → Pinger
  | spawned => .spawned
  | racing _ => .awaitingPong
  | resting _ => .awaitingTimer
  | ended => .ended .returned

/-- The steps of the pinger, and pongs that are read. -/
def Action.KeepsAlive : Action → Prop
  | .beginPinger | .pongPopped | .pongTimeout | .pingDue => True
  | .readMessage (.text (some jframe)) => route jframe = some .pong
  | _ => False

namespace PingPong

open Transition

variable {p q : PingPong} {c : Connector} {queue : List Frame} {pinger : Pinger}

/-- What arrives is a pong. -/
def PushesPongs : Action → PingPong → Prop
  | .push frame, _ => route frame = some .pong
  | _, _ => True

/-- The connection is online with the keep-alive in it, and the pinger at `pinger`. -/
structure FollowsAt (queue : List Frame) (pinger : Pinger) (p : PingPong) (c : Connector) :
    Prop where
  online : ∃ writer, c.phase =
    .online { reader := .reading, writer := writer, pinger := pinger, cancelled := false }
  pongBuffer : c.pongBuffer = p.pongEvent
  writeQueue : c.writeQueue = queue ++ p.writeQueue.map Frame.text

/-- The connection loop is where the keep-alive is. -/
def Follows (queue : List Frame) (p : PingPong) (c : Connector) : Prop :=
  FollowsAt queue p.phase.pinger p c

theorem follows_fire (h : Follows queue p c) : Follows queue p.fire c := by
  rcases fire_cases p with ⟨heq, -⟩ | ⟨-, hphase, heq⟩ | ⟨-, hphase, heq⟩
  · rwa [heq]
  · rw [Follows, hphase] at h
    rw [heq]
    exact ⟨h.online, h.pongBuffer, h.writeQueue⟩
  · rw [Follows, hphase] at h
    rw [heq]
    exact ⟨h.online, h.pongBuffer, h.writeQueue⟩

theorem follows_push (h : Follows queue p c) {frame : Json.Value}
    (hpong : route frame = some .pong) :
    ∃ d, c.readMessage (.text (some frame)) = some d ∧ Follows queue (p.push frame) d := by
  obtain ⟨⟨writer, honline⟩, -, hqueue⟩ := h
  have hphase : (p.push frame).phase.pinger = p.phase.pinger := by
    rw [push]
    by_cases hnone : p.phase = .racing none
    · simp [hnone, PingPhase.pinger]
    · simp [hnone]
  refine ⟨{ c with pongBuffer := some frame }, ?_, ⟨writer, hphase ▸ honline⟩, rfl, hqueue⟩
  simp [Connector.readMessage, Connector.handleMessage, Connector.modifyTasks, honline, hpong,
    RunPhase.tasks?, RunPhase.mapTasks, Tasks.startRead]

theorem follows_pop (h : FollowsAt queue .awaitingPong p c) (hpong : p.pongEvent.isSome) :
    ∃ d, c.pongPopped = some d ∧ Follows queue p.pop d := by
  obtain ⟨⟨writer, honline⟩, hbuffer, hqueue⟩ := h
  obtain ⟨frame, hframe⟩ := Option.isSome_iff_exists.mp hpong
  have hresting : Follows queue { p with pongEvent := none, phase := .resting false }
      { c with
        pongBuffer := none
        phase := .online { reader := .reading, writer := writer, pinger := .awaitingTimer } } :=
    ⟨⟨writer, rfl⟩, rfl, hqueue⟩
  refine ⟨_, ?_, follows_fire hresting⟩
  simp [Connector.pongPopped, Connector.modifyTasks, honline, hbuffer, hframe, RunPhase.tasks?,
    RunPhase.mapTasks]

/-- The ping is queued, and a pong that is in the buffer already is taken. -/
theorem follows_ping (h : FollowsAt queue pinger p c) :
    FollowsAt queue .awaitingPong p.queuePing c.ping := by
  obtain ⟨⟨writer, honline⟩, hbuffer, hqueue⟩ := h
  refine ⟨⟨writer.wake, ?_⟩, hbuffer, ?_⟩
  · simp [Connector.ping, Connector.send, Connector.modifyTasks, honline, RunPhase.mapTasks,
      Tasks.wakeWriter]
  · simp [Connector.ping, Connector.send, Connector.modifyTasks, queuePing, hqueue]

theorem follows_head (h : FollowsAt queue pinger p c) (args : Args) :
    ∃ actions d, (∀ a ∈ actions, Ftx.Action.KeepsAlive a) ∧
      exec (Ftx.step args) actions c.ping = some d ∧ Follows queue p.ping d := by
  have hqueued := follows_ping h
  rw [ping]
  split_ifs with hpong
  · obtain ⟨d, hpop, hd⟩ := follows_pop hqueued hpong
    refine ⟨[.pongPopped], d, by simp [Ftx.Action.KeepsAlive], ?_, hd⟩
    rw [exec_cons, Ftx.step, hpop]
    rfl
  · exact ⟨[], c.ping, by simp, rfl, follows_fire ⟨hqueued.online, hqueued.pongBuffer,
      hqueued.writeQueue⟩⟩

/-- The exception of the timeout ends the task. -/
theorem follows_timeout (h : FollowsAt queue .awaitingPong p c) :
    ∃ d, c.pongTimeout = some d ∧ Follows queue { p with phase := .ended } d := by
  obtain ⟨⟨writer, honline⟩, hbuffer, hqueue⟩ := h
  have hended : Follows queue { p with phase := .ended }
      { c with
        phase := .online { reader := .reading, writer := writer, pinger := .ended .returned } } :=
    ⟨⟨writer, rfl⟩, hbuffer, hqueue⟩
  refine ⟨_, ?_, hended⟩
  simp [Connector.pongTimeout, Connector.modifyTasks, honline, RunPhase.tasks?, RunPhase.mapTasks]

theorem Good.pongEvent_isSome (h : p.Good) (hphase : p.phase = .racing (some .pong)) :
    p.pongEvent.isSome := by
  rcases h with ⟨-, hspawned⟩ | ⟨current, earlier, h, -⟩
  · rw [hspawned] at hphase
    cases hphase
  · have hagrees := h.phase
    rw [hphase] at hagrees
    exact hagrees.1

theorem followed_of_resume (hgood : p.Good) (h : Follows queue p c) (hstep : p.resume = some q)
    (args : Args) :
    ∃ actions d, (∀ a ∈ actions, Ftx.Action.KeepsAlive a) ∧
      exec (Ftx.step args) actions c = some d ∧ Follows queue q d := by
  rw [Follows] at h
  rw [resume] at hstep
  obtain ⟨writer, honline⟩ := h.online
  split at hstep
  · next hphase =>
    rw [hphase] at honline
    obtain rfl := Option.some_inj.mp hstep
    have hbegin : c.beginPinger = some c.ping := by
      simp [Connector.beginPinger, honline, RunPhase.tasks?, PingPhase.pinger]
    obtain ⟨actions, d, hkeeps, hrun, hd⟩ :=
      follows_head (p := { p with nextPing := p.now }) ⟨h.online, h.pongBuffer, h.writeQueue⟩ args
    refine ⟨.beginPinger :: actions, d, List.forall_mem_cons.mpr ⟨trivial, hkeeps⟩, ?_, hd⟩
    rw [exec_cons, Ftx.step, hbegin]
    exact hrun
  · next hphase =>
    rw [hphase] at h
    obtain rfl := Option.some_inj.mp hstep
    obtain ⟨d, hpop, hd⟩ := follows_pop h (hgood.pongEvent_isSome hphase)
    refine ⟨[.pongPopped], d, by simp [Ftx.Action.KeepsAlive], ?_, hd⟩
    rw [exec_cons, Ftx.step, hpop]
    rfl
  · next hphase =>
    rw [hphase] at h
    obtain rfl := Option.some_inj.mp hstep
    obtain ⟨d, htimeout, hd⟩ := follows_timeout h
    refine ⟨[.pongTimeout], d, by simp [Ftx.Action.KeepsAlive], ?_, hd⟩
    rw [exec_cons, Ftx.step, htimeout]
    rfl
  · next hphase =>
    rw [hphase] at honline
    obtain rfl := Option.some_inj.mp hstep
    have hdue : c.pingDue = some c.ping := by
      simp [Connector.pingDue, honline, RunPhase.tasks?, PingPhase.pinger]
    obtain ⟨actions, d, hkeeps, hrun, hd⟩ := follows_head h args
    refine ⟨.pingDue :: actions, d, List.forall_mem_cons.mpr ⟨trivial, hkeeps⟩, ?_, hd⟩
    rw [exec_cons, Ftx.step, hdue]
    exact hrun
  · exact absurd hstep (by simp)

theorem followed_of_step {action : Action} (hgood : p.Good) (h : Follows queue p c)
    (hpushes : PushesPongs action p) (hstep : step action p = some q) (args : Args) :
    ∃ actions d, (∀ a ∈ actions, Ftx.Action.KeepsAlive a) ∧
      exec (Ftx.step args) actions c = some d ∧ Follows queue q d := by
  cases action with
  | elapse d =>
    obtain rfl := Option.some_inj.mp hstep
    exact ⟨[], c, by simp, rfl, follows_fire ⟨h.online, h.pongBuffer, h.writeQueue⟩⟩
  | push frame =>
    obtain rfl := Option.some_inj.mp hstep
    obtain ⟨d, hread, hd⟩ := follows_push h hpushes
    refine ⟨[.readMessage (.text (some frame))], d, ?_, ?_, hd⟩
    · intro a ha
      rw [List.mem_singleton.mp ha]
      exact hpushes
    · rw [exec_cons, Ftx.step, hread]
      rfl
  | resume => exact followed_of_resume hgood h hstep args

/-- **The keep-alive is a task of the connection loop.** Whatever it does against the clock, the
loop can do with the steps of its pinger and with pongs that it reads, from any state in which the
connection is online and the pinger has not begun. -/
theorem run_followed {actions : List Action} (hrun : run actions = some p)
    (hpongs : Along step PushesPongs actions {}) (args : Args) {writer : Writer}
    (hphase : c.phase = .online { reader := .reading, writer := writer })
    (hbuffer : c.pongBuffer = none) :
    ∃ steps d, (∀ a ∈ steps, Ftx.Action.KeepsAlive a) ∧
      exec (Ftx.step args) steps c = some d ∧ Follows c.writeQueue p d := by
  have hstart : Follows c.writeQueue {} c := ⟨⟨writer, hphase⟩, hbuffer, (List.append_nil _).symm⟩
  obtain ⟨steps, d, hkeeps, hsteps, -, hd⟩ := exec_answered (R := fun p d ↦ p.Good ∧
    Follows c.writeQueue p d) (fun ⟨hgood, h⟩ hpushes hstep ↦ by
      obtain ⟨steps, d, hkeeps, hsteps, hd⟩ := followed_of_step hgood h hpushes hstep args
      exact ⟨steps, d, hkeeps, hsteps, good_of_step hgood hstep, hd⟩)
    ⟨.inl ⟨rfl, rfl⟩, hstart⟩ hpongs hrun
  exact ⟨steps, d, hkeeps, hsteps, hd⟩

end PingPong

end Ftx

end BoostConnector
