import BoostConnector.Ftx.SubscriptionMove
import BoostConnector.Transition.WaitLoop

/-!
# Waiting for the connection

`wait_ready` and `wait_down` wait in a loop on `connection_state_cv_`, which
`notify_connection_state` cancels after it has set `connection_state_`. Nothing else sets the state,
so a caller never sleeps while the connection is in the state he waits for, and a caller that is
resumed in it returns (`callRun_waits`). Nobody is woken by a `run` that has finished.
-/

namespace BoostConnector

namespace Ftx

open Transition

/-! ## Announcements -/

/-- A step announces a state and sets it, or does neither. -/
theorem step_announces {args : Args} {a : Action} {c d : Connector} (h : step args a c = some d) :
    (d.connectionState = c.connectionState ∧ d.notified = c.notified) ∨
      ∃ s, d.connectionState = s ∧ d.notified = c.notified ++ [s] := by
  have hannounced (c : Connector) (s : ConnectionState) (order : List ChannelMarketPair) :
      (c.notifyConnectionState s order).connectionState = s ∧
        (c.notifyConnectionState s order).notified = c.notified ++ [s] := by
    have hsame := Connector.notifyConnectionState_undisturbed c s order
    exact ⟨hsame.connectionState, hsame.notified⟩
  by_cases ha : a.IsConnection
  · cases connection_move ha h with
    | send payload => exact .inl ⟨rfl, rfl⟩
    | drop =>
      have hdrop := Connector.perform_undisturbed c .drop
      exact .inl ⟨hdrop.connectionState, hdrop.notified⟩
    | requestStop => exact .inl ⟨rfl, rfl⟩
    | stopped hphase hstop => exact .inl ⟨rfl, rfl⟩
    | connecting hphase hstop => exact .inl ⟨rfl, rfl⟩
    | badUrl hphase hstop => exact .inl ⟨rfl, rfl⟩
    | @abandoned ok order hphase hwalks hstop =>
      exact .inr ⟨.up, hannounced (c.opened args ok) .up order⟩
    | @announced ok order hphase hwalks hstop =>
      exact .inr ⟨.up, hannounced (c.opened args ok) .up order⟩
    | beginReader hphase ht => exact .inl ⟨rfl, rfl⟩
    | @readMessage t msg hphase ht =>
      have hsame := Connector.handleMessage_undisturbed c msg
      exact .inl ⟨hsame.connectionState, hsame.notified⟩
    | @readError t order hphase ht hwalks =>
      have hsame := Connector.broadcast_undisturbed c order .connectionDown
      exact .inl ⟨hsame.connectionState, hsame.notified⟩
    | writer hwriter hphase ht => exact .inl ⟨rfl, rfl⟩
    | pinger hpinger hphase ht => exact .inl ⟨rfl, rfl⟩
    | @joined t order hphase ht hwalks => exact .inr ⟨.down, hannounced c .down order⟩
    | failed hphase ht => exact .inl ⟨rfl, rfl⟩
  · have hkeeps := keepsConnection ha h
    exact .inl ⟨hkeeps.connectionState, hkeeps.notified⟩

/-- A `run` that has finished announces nothing. -/
theorem step_finished {args : Args} {a : Action} {c d : Connector} (hc : c.phase = .finished)
    (h : step args a c = some d) : d.phase = .finished ∧ d.notified = c.notified := by
  have hkept (hphase : d.phase = c.phase ∨ d.phase = c.phase.mapTasks Tasks.wakeWriter) :
      d.phase = .finished := by
    rcases hphase with hphase | hphase
    · exact hphase.trans hc
    · rw [hphase, hc]
      rfl
  by_cases ha : a.IsConnection
  · cases connection_move ha h with
    | send payload => exact ⟨hkept (.inr rfl), rfl⟩
    | drop =>
      have hdrop := Connector.perform_undisturbed c .drop
      exact ⟨hkept hdrop.phase, hdrop.notified⟩
    | requestStop =>
      refine ⟨?_, rfl⟩
      rw [Connector.requestStop, Connector.modifyTasks, hc]
      rfl
    | stopped hphase hstop => simp [hc] at hphase
    | connecting hphase hstop => simp [hc] at hphase
    | badUrl hphase hstop => simp [hc] at hphase
    | abandoned hphase hwalks hstop => simp [hc] at hphase
    | announced hphase hwalks hstop => simp [hc] at hphase
    | beginReader hphase ht => simp [hc] at hphase
    | readMessage hphase ht => simp [hc] at hphase
    | readError hphase ht hwalks => simp [hc] at hphase
    | writer hwriter hphase ht => simp [hc] at hphase
    | pinger hpinger hphase ht => simp [hc] at hphase
    | joined hphase ht hwalks => simp [hc] at hphase
    | failed hphase ht => simp [hc] at hphase
  · have hkeeps := keepsConnection ha h
    exact ⟨hkept hkeeps.phase, hkeeps.notified⟩

/-! ## The callers -/

namespace Connector

/-- The condition of the loop in `wait_ready` (for `up`) and `wait_down` (for `down`). -/
def isIn (s : ConnectionState) (c : Connector) : Bool := c.connectionState = s

/-- `connection_state_cv_.cancel()` is called in a step from `c` to `d`. -/
def notifies (c d : Connector) : Bool := c.notified.length < d.notified.length

theorem signalled (args : Args) : Signalled (step args) isIn notifies := by
  intro a c d s h hquiet
  rcases step_announces h with ⟨hstate, -⟩ | ⟨s', -, hnotified⟩
  · rw [isIn, hstate, isIn]
  · simp [notifies, hnotified] at hquiet

end Connector

/-- A connector with the calls of `wait_ready` and `wait_down`. -/
abbrev Called := Waiting ConnectionState Connector

/-- A step of the connector, or of a call. -/
def callStep (args : Args) : WaitAction ConnectionState Action → Called → Option Called :=
  waitStep (step args) Connector.isIn Connector.notifies

def callRun (args : Args) (actions : List (WaitAction ConnectionState Action)) : Option Called :=
  exec (callStep args) actions { state := {} }

/-- **Nobody waits for what is there.** A call of `wait_ready` or `wait_down` sleeps only while the
connection is not in the state it waits for, an outstanding one returns if it is resumed in that
state, and it returns in no other. Once `run` has finished, who sleeps sleeps on. -/
theorem callRun_waits {args : Args} {actions : List (WaitAction ConnectionState Action)}
    {w : Called} (hrun : callRun args actions = some w) :
    (∀ s, (s, WaitCall.suspended) ∈ w.calls → w.state.connectionState ≠ s) ∧
      (∀ i s call, w.calls[i]? = some (s, call) → call.isOutstanding = true →
        w.state.connectionState = s →
          ∃ u, callStep args (.resume i) w = some u ∧ u.calls[i]? = some (s, .returned)) ∧
      (∀ a (u : Called) (i : ℕ) s, callStep args a w = some u →
        w.calls[i]? ≠ some (s, .returned) → u.calls[i]? = some (s, .returned) →
          u.state.connectionState = s) ∧
      ∀ i s, w.state.phase = .finished → w.calls[i]? = some (s, .suspended) →
        ∀ after u, .cancel i ∉ after → exec (callStep args) after w = some u →
          u.calls[i]? = some (s, .suspended) := by
  have hawake : Awake Connector.isIn w := exec_awake (Connector.signalled args) hrun
  refine ⟨fun s hs heq ↦ ?_, fun i s call hi hcall hs ↦ ?_, fun a u i s h hi hi' ↦ ?_,
    fun i s hphase hi after u hcancel hafter ↦ ?_⟩
  · have hfalse := hawake s hs
    simp [Connector.isIn, heq] at hfalse
  · exact hawake.resume_returns hi hcall (decide_eq_true hs)
  · have hreturned : Connector.isIn s u.state = true := holds_of_returns h hi hi'
    exact of_decide_eq_true hreturned
  · refine exec_sleeps (J := fun c ↦ c.phase = .finished) (fun b c d hc h ↦ ?_) hphase hi hcancel
      hafter
    obtain ⟨hd, hnotified⟩ := step_finished hc h
    exact ⟨hd, by simp [Connector.notifies, hnotified]⟩

/-- Two callers wait for the connection and one for its end. -/
def threeCallers : List (WaitAction ConnectionState Action) :=
  [.call .up, .call .up, .inner .reconnect, .inner (.connected true []), .call .down, .resume 1]

theorem callRun_waits_threeCallers :
    ∃ w, callRun {} threeCallers = some w ∧ w.calls.map Prod.snd =
      [.woken false, .returned, .suspended] ∧
        ∀ s, (s, WaitCall.suspended) ∈ w.calls → w.state.connectionState ≠ s :=
  ⟨_, rfl, rfl, (@callRun_waits {} threeCallers _ rfl).1⟩

end Ftx

end BoostConnector
