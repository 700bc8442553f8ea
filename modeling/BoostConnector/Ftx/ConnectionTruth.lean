import BoostConnector.Ftx.ChannelInterest

/-!
# What `connection_state_` says

The state is announced up after `connect` has returned, which it does whether the handshake
succeeded or not, and announced down only if the three tasks return normally, which the writer never
does. So the state tells the truth exactly as long as every announced handshake has succeeded and no
announced connection has ended.
-/

namespace BoostConnector

namespace Ftx

/-- The announcements alternate, starting with up. -/
def Alternates (notified : List ConnectionState) : Prop :=
  ∀ k s, notified[k]? = some s → s = if k % 2 = 0 then .up else .down

theorem alternates_concat {notified : List ConnectionState} (h : Alternates notified)
    {s : ConnectionState} (hs : s = if notified.length % 2 = 0 then .up else .down) :
    Alternates (notified ++ [s]) := by
  intro k r hk
  rcases List.getElem?_append .. ▸ hk with hk
  split_ifs at hk with hlt
  · exact h k r hk
  · have hlast : k - notified.length = 0 ∧ s = r := by
      simpa [List.getElem?_singleton] using hk
    have hlength : k = notified.length := by omega
    rw [← hlast.2, hlength]
    exact hs

/-- The connection has been announced and its tasks have not been joined. -/
def RunPhase.IsOnline (p : RunPhase) : Prop := ∃ t, p = .online t

theorem RunPhase.isOnline_mapTasks {p : RunPhase} {f : Tasks → Tasks} :
    (p.mapTasks f).IsOnline ↔ p.IsOnline := by
  cases p <;> simp [mapTasks, IsOnline]

theorem RunPhase.not_isOnline_of_idle_or_delay {p : RunPhase} (h : p = .idle ∨ p = .delay) :
    ¬p.IsOnline := by
  rintro ⟨t, rfl⟩
  simp at h

namespace Connector

/-- The state is up only on a connection that is online and whose handshake succeeded, the
announcements alternate, and none repeats the current state. -/
structure TellsTruth (c : Connector) : Prop where
  up : c.connectionState = .up → c.phase.IsOnline ∧ c.handshaken = true
  alternates : Alternates c.notified
  announce : .notifyNewState ∉ c.failed

/-- The truth with what carries it from step to step: an online connection is up, and the number of
announcements tells the state. -/
structure Truth (c : Connector) : Prop extends TellsTruth c where
  online : c.phase.IsOnline → c.connectionState = .up
  parity : c.connectionState = if c.notified.length % 2 = 0 then .down else .up

theorem truth_fresh : Truth {} where
  up h := absurd h (by decide)
  alternates k s h := by simp at h
  announce := List.not_mem_nil
  online := by
    rintro ⟨t, ht⟩
    simp at ht
  parity := rfl

variable {c d : Connector}

/-- The truth is about five things. -/
theorem Truth.congr (h : Truth c) (hstate : d.connectionState = c.connectionState)
    (hhandshaken : d.handshaken = c.handshaken) (hnotified : d.notified = c.notified)
    (hfailed : .notifyNewState ∈ d.failed → .notifyNewState ∈ c.failed)
    (honline : d.phase.IsOnline ↔ c.phase.IsOnline) : Truth d where
  up hup := by
    rw [honline, hhandshaken]
    exact h.up (hstate ▸ hup)
  alternates := hnotified ▸ h.alternates
  announce hmem := h.announce (hfailed hmem)
  online hon := hstate ▸ h.online (honline.mp hon)
  parity := by
    rw [hstate, hnotified]
    exact h.parity

theorem Truth.modifyTasks (h : Truth c) (f : Tasks → Tasks) : Truth (c.modifyTasks f) :=
  h.congr rfl rfl rfl id RunPhase.isOnline_mapTasks

theorem KeepsConnection.truth (h : KeepsConnection c d) (hc : Truth c) : Truth d := by
  refine hc.congr h.connectionState h.handshaken h.notified h.failed ?_
  rcases h.phase with hphase | hphase
  · rw [hphase]
  · rw [hphase, RunPhase.isOnline_mapTasks]

/-- Off line, the truth does not depend on the handshake. -/
theorem Truth.down (h : Truth c) (hoff : ¬c.phase.IsOnline) : c.connectionState = .down := by
  cases hstate : c.connectionState with
  | down => rfl
  | up => exact absurd (h.up hstate).1 hoff

theorem Truth.offline (h : Truth c) (hoff : ¬c.phase.IsOnline)
    (hstate : d.connectionState = c.connectionState) (hnotified : d.notified = c.notified)
    (hfailed : d.failed = c.failed) (hphase : ¬d.phase.IsOnline) : Truth d where
  up hup := by
    rw [hstate, h.down hoff] at hup
    exact absurd hup (by decide)
  alternates := hnotified ▸ h.alternates
  announce := hfailed ▸ h.announce
  online hon := absurd hon hphase
  parity := by
    rw [hstate, hnotified]
    exact h.parity

/-- A new state is announced. -/
theorem Truth.announced (h : Truth c) (s : ConnectionState) (order : List ChannelMarketPair)
    (hs : s ≠ c.connectionState) (hstate : d.connectionState = s)
    (hnotified : d.notified = c.notified ++ [s])
    (hfailed : d.failed = (c.notifyConnectionState s order).failed)
    (hup : s = .up → d.phase.IsOnline ∧ d.handshaken = true)
    (honline : d.phase.IsOnline → s = .up) : Truth d := by
  have hparity : s = if c.notified.length % 2 = 0 then .up else .down := by
    rw [h.parity] at hs
    split_ifs at hs ⊢
    · cases s with
      | up => rfl
      | down => exact absurd rfl hs
    · cases s with
      | up => exact absurd rfl hs
      | down => rfl
  have hsafe : .notifyNewState ∉ d.failed := by
    rw [hfailed]
    intro hmem
    have hmem := (notifyConnectionState_undisturbed c s order).keepsConnection.failed hmem
    rcases mem_failed_check hmem with hmem | ⟨-, hfalse⟩
    · exact h.announce hmem
    · exact absurd hs (by simpa using hfalse)
  refine ⟨⟨fun hd ↦ hup (hstate.symm.trans hd), ?_, hsafe⟩, fun hd ↦ hstate.trans (honline hd), ?_⟩
  · rw [hnotified]
    exact alternates_concat h.alternates hparity
  · rw [hstate, hnotified, List.length_append, List.length_singleton]
    rw [hparity]
    split_ifs with heven hodd hodd
    · omega
    · rfl
    · rfl
    · omega

end Connector

/-! ## The steps that announce the truth -/

/-- Whether the handshake of the connection succeeded, if the action announces one. -/
def Action.connected? : Action → Option Bool
  | .connected ok _ => some ok
  | _ => none

/-- The action joins the tasks of a connection. -/
def Action.isJoin : Action → Bool
  | .join _ => true
  | _ => false

/-- The steps that announce a connection only if its handshake succeeded and nobody has asked the
connector to stop, and that end one only if its tasks returned normally. -/
def AnnouncesTruly (a : Action) (c : Connector) : Prop :=
  (∀ ok ∈ a.connected?, ok = true ∧ c.stopRequested = false) ∧
    (a.isJoin = true → ∀ t ∈ c.phase.tasks?, t.joined ≠ some .threw)

instance (a : Action) (c : Connector) : Decidable (AnnouncesTruly a c) :=
  inferInstanceAs (Decidable ((∀ ok ∈ a.connected?, ok = true ∧ c.stopRequested = false) ∧
    (a.isJoin = true → ∀ t ∈ c.phase.tasks?, t.joined ≠ some .threw)))

open Connector in
theorem ConnectionMove.truth {args : Args} {a : Action} {c d : Connector}
    (h : ConnectionMove args c a d) (ha : AnnouncesTruly a c) (hc : Truth c) : Truth d := by
  have honline {t t' : Tasks} (hphase : c.phase = .online t) :
      (RunPhase.online t').IsOnline ↔ c.phase.IsOnline :=
    ⟨fun _ ↦ ⟨t, hphase⟩, fun _ ↦ ⟨t', rfl⟩⟩
  cases h with
  | send payload => exact hc.congr rfl rfl rfl id RunPhase.isOnline_mapTasks
  | drop => exact (perform_undisturbed c .drop).keepsConnection.truth hc
  | requestStop => exact hc.congr rfl rfl rfl id RunPhase.isOnline_mapTasks
  | stopped hphase _ =>
    refine hc.offline (RunPhase.not_isOnline_of_idle_or_delay hphase) rfl rfl rfl ?_
    rintro ⟨t, ht⟩
    simp at ht
  | connecting hphase _ =>
    refine hc.offline (RunPhase.not_isOnline_of_idle_or_delay hphase) rfl rfl rfl ?_
    rintro ⟨t, ht⟩
    simp at ht
  | badUrl hphase hstop =>
    refine hc.offline (RunPhase.not_isOnline_of_idle_or_delay hphase) rfl rfl rfl ?_
    rintro ⟨t, ht⟩
    simp [leaveReconnect, hstop] at ht
  | abandoned _ _ hstop =>
    have hnot := (ha.1 _ rfl).2
    rw [hstop] at hnot
    exact Bool.noConfusion hnot
  | @announced ok order hphase _ _ =>
    have hoff : ¬c.phase.IsOnline := by
      rintro ⟨t, ht⟩
      rw [hphase] at ht
      simp at ht
    have hkeeps := (notifyConnectionState_undisturbed (c.opened args ok) .up order).keepsConnection
    have hopened : Truth (c.opened args ok) := hc.offline hoff rfl rfl rfl hoff
    refine hopened.announced .up order ?_ hkeeps.connectionState hkeeps.notified rfl
      (fun _ ↦ ⟨⟨_, rfl⟩, ?_⟩) (fun _ ↦ rfl)
    · rw [hopened.down hoff]
      decide
    · exact hkeeps.handshaken.trans (ha.1 _ rfl).1
  | beginReader _ _ => exact hc.modifyTasks _
  | @readMessage _ msg _ _ =>
    exact ((handleMessage_undisturbed c msg).keepsConnection.truth hc).modifyTasks _
  | readError _ _ _ =>
    exact ((broadcast_undisturbed c _ _).keepsConnection.truth hc).modifyTasks _
  | writer _ hphase _ => exact hc.congr rfl rfl rfl id (honline hphase)
  | pinger _ hphase _ => exact hc.congr rfl rfl rfl id (honline hphase)
  | @joined t order hphase _ _ =>
    have hkeeps := (notifyConnectionState_undisturbed c .down order).keepsConnection
    refine hc.announced .down order ?_ hkeeps.connectionState hkeeps.notified rfl
      (fun h ↦ absurd h (by decide)) ?_
    · rw [hc.online ⟨t, hphase⟩]
      decide
    · rintro ⟨t', ht'⟩
      simp only [leaveReconnect] at ht'
      split_ifs at ht'
  | failed hphase ht => exact absurd ht (ha.2 rfl _ (by rw [hphase]; rfl))

theorem step_truth {args : Args} {a : Action} {c d : Connector} (hc : c.Truth)
    (ha : AnnouncesTruly a c) (h : step args a c = some d) : d.Truth := by
  by_cases hconnection : a.IsConnection
  · exact (connection_move hconnection h).truth ha hc
  · exact (keepsConnection hconnection h).truth hc

/-- **The connection state tells the truth** in every run in which every announced handshake has
succeeded and no announced connection ends with an exception of its tasks. -/
theorem run_tellsTruth {args : Args} {actions : List Action} {c : Connector}
    (hC : Transition.Along (step args) AnnouncesTruly actions {})
    (hrun : run args actions = some c) : c.TellsTruth :=
  (Transition.exec_invariant_of_along AnnouncesTruly Connector.Truth step_truth
    Connector.truth_fresh hC hrun).toTellsTruth

/-- A connection comes up, and its tasks run. -/
def comeUp : List Action :=
  [.reconnect, .connected true [], .beginReader, .beginWriter, .beginPinger, .resumeWriter]

theorem run_tellsTruth_comeUp :
    ∃ c, run {} comeUp = some c ∧ c.connectionState = .up ∧ c.TellsTruth :=
  ⟨_, rfl, by decide, @run_tellsTruth {} comeUp _ (by decide) rfl⟩

/-- `connect` fails, and returns. -/
def failToConnect : List Action := [.reconnect, .connected false []]

theorem failToConnect_not_tellsTruth :
    ∃ c, run {} failToConnect = some c ∧ c.connectionState = .up ∧ ¬c.TellsTruth := by
  refine ⟨_, rfl, by decide, fun h ↦ ?_⟩
  have hhandshaken := (h.up (by decide)).2
  exact absurd hhandshaken (by decide)

/-- After a write error the connection stays up through the delay, and the next one is announced
again. -/
example : (run {} (comeUp ++ [.written false, .pongTimeout, .readError [], .join [], .reconnect,
    .connected true []])).map (fun c ↦ (c.notified, c.failed))
    = some ([.up, .up], [.notifyNewState]) := by decide

end Ftx

end BoostConnector
