import BoostConnector.Ftx.Traffic

/-!
# Remembering a close request

`close()` on a machine that is opening only sets `close_requested`; the close itself is left to the
events that follow. It survives everything but one of them: `process_opening_event` answers a
disconnection with `down` whether or not a close was requested, where `process_closing_event`
closes. After that the machine waits for the next connection and subscribes again, and the flag
keeps every later `close()` from doing anything.

`closeKept_iff` says that this is the only way to lose a close.
-/

namespace BoostConnector

namespace Ftx

open Transition History

variable {topic : ChannelMarketPair}

/-! ## The promise of a close -/

/-- The input does not take the connection away from a machine that is opening and has been asked to
close. -/
def CloseSurvives (i : Input) (m : Observed) : Prop :=
  match i with
  | .close => True
  | .event e => e.isDown = true → m.machine.state = .opening → m.machine.closeRequested = false

instance (i : Input) (m : Observed) : Decidable (CloseSurvives i m) :=
  match i with
  | .close => inferInstanceAs (Decidable True)
  | .event e => inferInstanceAs (Decidable (e.isDown = true → _ → _))

/-- What a close request promises of the state reached by the inputs so far: the machine is on its
way to `closed`, a disconnection has taken it there, and it has not subscribed again. -/
structure CloseKept (topic : ChannelMarketPair) (inputs : List Input) (m : Observed) : Prop where
  state : m.machine.state = .opening ∨ m.machine.state = .closing ∨ m.machine.state = .closed
  down : ∀ before e, inputs = before ++ [.event e] → .close ∈ before → e.isDown = true →
    m.machine.state = .closed ∧ m.machine.closedLatch = true
  silent : AtEach (fun past x ↦ .close ∈ past → ¬x.Subscribes topic) m.history

/-! ## What a move does to the promise -/

/-- A move sends no subscribe unless an event takes a machine out of `down`. -/
theorem Move.not_subscribes {sm sm' : StateMachine} {i : Input} {effects : List Effect}
    (h : Move sm i sm' effects) (hstate : sm.state ≠ .down ∨ i = .close) :
    ∀ x ∈ effects.map Item.did, ¬x.Subscribes sm.topic := by
  intro x hx hsub
  cases h with
  | ignored hquiet => exact (isPlain_of_mem_map_did hquiet hx).not_sends _ hsub
  | up hdown => simp [hdown] at hstate
  | subscribedClosing =>
    rw [List.map_singleton, List.mem_singleton] at hx
    exact not_unsubscribes_of_subscribes hsub hx
  | closeOpen =>
    rw [List.map_singleton, List.mem_singleton] at hx
    exact not_unsubscribes_of_subscribes hsub hx
  | _ => exact absurd hx List.not_mem_nil

theorem Move.topic_eq {sm sm' : StateMachine} {i : Input} {effects : List Effect}
    (h : Move sm i sm' effects) : sm'.topic = sm.topic := by
  cases h <;> rfl

/-- The flag records whether `close()` has been called. -/
theorem Move.closeRequested_iff {sm sm' : StateMachine} {i : Input} {effects : List Effect}
    (h : Move sm i sm' effects) :
    sm'.closeRequested = true ↔ sm.closeRequested = true ∨ i = .close := by
  cases h with
  | closeAgain hclose => simp [hclose]
  | _ => simp [StateMachine.enterClosedState]

/-- Where a machine that has been asked to close can go. -/
theorem Move.state_of_closeRequested {sm sm' : StateMachine} {i : Input} {effects : List Effect}
    (h : Move sm i sm' effects) (hclose : sm.closeRequested = true)
    (hstate : sm.state = .opening ∨ sm.state = .closing ∨ sm.state = .closed)
    (hsurvives : ∀ e, i = .event e → e.isDown = true → sm.state ≠ .opening) :
    sm'.state = .opening ∨ sm'.state = .closing ∨ sm'.state = .closed := by
  cases h with
  | ignored => exact hstate
  | up hdown => rw [hdown] at hstate; simp at hstate
  | lost hlost he =>
    rcases hlost with hlost | hlost
    · exact absurd hlost (hsurvives _ rfl he)
    · rw [hlost] at hstate; simp at hstate
  | subscribed _ _ hfalse => rw [hclose] at hfalse; simp at hfalse
  | subscribedClosing => exact .inr (.inl rfl)
  | closedDown => exact .inr (.inr rfl)
  | unsubscribed => exact .inr (.inr rfl)
  | closeAgain => exact hstate
  | closeNoted _ hnoted => exact hnoted
  | closeDown => exact .inr (.inr rfl)
  | closeOpen => exact .inr (.inl rfl)

/-- Where a call of `close()` leads. -/
theorem Move.state_of_close {sm sm' : StateMachine} {effects : List Effect}
    (h : Move sm .close sm' effects) (hstate : sm.closeRequested = true →
      sm.state = .opening ∨ sm.state = .closing ∨ sm.state = .closed) :
    sm'.state = .opening ∨ sm'.state = .closing ∨ sm'.state = .closed := by
  cases h with
  | closeAgain hagain => exact hstate hagain
  | closeNoted _ hnoted => exact hnoted
  | closeDown => exact .inr (.inr rfl)
  | closeOpen => exact .inr (.inl rfl)

/-- A disconnection takes a machine asked to close to `closed`. -/
theorem Move.closed_of_down {sm sm' : StateMachine} {e : ChannelEvent} {effects : List Effect}
    (h : Move sm (.event e) sm' effects) (he : e.isDown = true)
    (hstate : sm.state = .closing ∨ sm.state = .closed) : sm'.state = .closed := by
  cases h with
  | ignored _ hdown =>
    rcases hstate with hstate | hstate
    · rcases hdown he with hst | hst <;> rw [hstate] at hst <;> simp at hst
    · exact hstate
  | up hst => rcases hstate with hstate | hstate <;> rw [hst] at hstate <;> simp at hstate
  | lost hlost => rcases hlost with hlost | hlost <;> rw [hlost] at hstate <;> simp at hstate
  | subscribed _ hsub => rw [ChannelEvent.isSubscribed_of_isDown he] at hsub; simp at hsub
  | subscribedClosing _ hsub => rw [ChannelEvent.isSubscribed_of_isDown he] at hsub; simp at hsub
  | closedDown => rfl
  | unsubscribed => rfl

/-- The latch is set with the state. -/
theorem Move.closedLatch_of_closed {sm sm' : StateMachine} {i : Input} {effects : List Effect}
    (h : Move sm i sm' effects) (hlatch : sm.state = .closed → sm.closedLatch = true)
    (hclosed : sm'.state = .closed) : sm'.closedLatch = true := by
  cases h with
  | ignored => exact hlatch hclosed
  | closeAgain => exact hlatch hclosed
  | closeNoted => exact hlatch hclosed
  | closedDown => rfl
  | unsubscribed => rfl
  | closeDown => rfl
  | _ => simp at hclosed

/-! ## The runs that keep it -/

/-- The invariant of the runs in which every close survives. -/
structure Remembered (topic : ChannelMarketPair) (m : Observed) : Prop where
  topic_eq : m.machine.topic = topic
  state : m.machine.closeRequested = true →
    m.machine.state = .opening ∨ m.machine.state = .closing ∨ m.machine.state = .closed
  latch : m.machine.state = .closed → m.machine.closedLatch = true
  noted : .close ∈ m.history → m.machine.closeRequested = true
  silent : AtEach (fun past x ↦ .close ∈ past → ¬x.Subscribes topic) m.history

theorem remembered_fresh (topic : ChannelMarketPair) : Remembered topic (fresh topic) :=
  ⟨rfl, fun h ↦ absurd h (by simp [fresh]), fun h ↦ absurd h (by simp [fresh]),
    fun h ↦ absurd h List.not_mem_nil, atEach_nil _⟩

theorem mem_closing {old new : StateMachine} {x : Item} (h : x ∈ closing old new) :
    x = .closed := by
  unfold closing at h
  split_ifs at h
  · exact List.mem_singleton.mp h
  · exact absurd h List.not_mem_nil

theorem observe_remembered {i : Input} {m m' : Observed} (h : Remembered topic m)
    (hsurvives : CloseSurvives i m) (hstep : observe i m = some m') : Remembered topic m' := by
  obtain ⟨effects, hmove, hhist⟩ := observe_move hstep
  obtain ⟨htopic, hstate, hlatch, hnoted, hsilent⟩ := h
  have hclose_mem : .close ∈ m'.history → .close ∈ m.history ∨ i = .close := by
    intro hmem
    rw [hhist] at hmem
    simp only [List.mem_append, List.mem_singleton, List.mem_map] at hmem
    rcases hmem with ((hmem | hmem) | ⟨x, -, hx⟩) | hmem
    · exact .inl hmem
    · cases i with
      | close => exact .inr rfl
      | event e => cases hmem
    · cases hx
    · cases mem_closing hmem
  refine ⟨hmove.topic_eq.trans htopic, fun hclose ↦ ?_, hmove.closedLatch_of_closed hlatch,
    fun hmem ↦ ?_, ?_⟩
  · rcases hmove.closeRequested_iff.mp hclose with hclose | rfl
    · refine hmove.state_of_closeRequested hclose (hstate hclose) fun e hi he hopening ↦ ?_
      subst hi
      exact absurd (hsurvives he hopening) (by simp [hclose])
    · exact hmove.state_of_close hstate
  · exact hmove.closeRequested_iff.mpr ((hclose_mem hmem).imp hnoted id)
  · -- a subscribe is sent only out of `down`, and there no close has been recorded
    by_cases hquiet : m.machine.state ≠ .down ∨ i = .close
    · have hinput : ¬i.item.Subscribes topic := (isPlain_item i).not_sends _
      rw [hhist]
      refine ((hsilent.append_of_forall ?_).append_of_forall ?_).append_of_forall ?_
      · intro x hx _ _
        exact List.mem_singleton.mp hx ▸ hinput
      · intro x hx _ _
        exact htopic ▸ hmove.not_subscribes hquiet x hx
      · intro x hx _ _ hsub
        rw [mem_closing hx] at hsub
        cases hsub
    · obtain ⟨hdown, hevent⟩ := not_or.mp hquiet
      rw [not_not] at hdown
      intro past x hpast hmem
      have hpast_mem : .close ∈ m'.history := hpast.subset (List.mem_append_left _ hmem)
      rcases hclose_mem hpast_mem with hold | rfl
      · have := hstate (hnoted hold)
        simp [hdown] at this
      · exact absurd rfl hevent

/-- The flag says whether the inputs so far contain a `close()`. -/
theorem closeRequested_iff_mem {inputs : List Input} {m : Observed}
    (hrun : exec observe inputs (fresh topic) = some m) :
    m.machine.closeRequested = true ↔ .close ∈ inputs := by
  induction inputs using List.reverseRecOn generalizing m with
  | nil =>
    rw [exec_nil, Option.some_inj] at hrun
    subst hrun
    simp [fresh]
  | append_singleton inputs i ih =>
    rw [exec_concat, Option.bind_eq_some_iff] at hrun
    obtain ⟨n, hn, hstep⟩ := hrun
    obtain ⟨effects, hmove, -⟩ := observe_move hstep
    rw [hmove.closeRequested_iff, ih hn, List.mem_append, List.mem_singleton, eq_comm (a := i)]

/-- **When a close request is remembered.** In every state that a sequence of inputs passes through
after its first `close()` the promise of `CloseKept` holds, if and only if the connection never goes
down while the machine is opening with a close requested. -/
theorem closeKept_iff (topic : ChannelMarketPair) (inputs : List Input) :
    (∀ before m, before <+: inputs → exec observe before (fresh topic) = some m →
        .close ∈ before → CloseKept topic before m) ↔
      Along observe CloseSurvives inputs (fresh topic) := by
  constructor
  · intro hkept
    refine along_of_forall fun before i after m hsplit hrun ↦ ?_
    cases i with
    | close => trivial
    | event e =>
      intro he hopening
      by_contra hclose
      rw [Bool.not_eq_false] at hclose
      obtain ⟨m', hm'⟩ := exists_observed [.event e] m
      have hmem : .close ∈ before := (closeRequested_iff_mem hrun).mp hclose
      have hrun' : exec observe (before ++ [.event e]) (fresh topic) = some m' := by
        rw [exec_append, hrun]
        exact hm'
      have hprefix : before ++ [.event e] <+: inputs := ⟨after, by rw [hsplit]; simp⟩
      have hstate := (hkept _ m' hprefix hrun' (List.mem_append_left _ hmem)).state
      rw [exec_cons, observe, Option.bind_some, exec_nil, Option.some_inj] at hm'
      subst hm'
      simp [StateMachine.feed, StateMachine.processEvent, hopening,
        StateMachine.processOpeningEvent, he] at hstate
  · rintro halong before m ⟨after, rfl⟩ hrun hmem
    obtain ⟨hbefore, -⟩ := along_append halong hrun
    have h : Remembered topic m :=
      exec_invariant_of_along CloseSurvives (Remembered topic) observe_remembered
        (remembered_fresh topic) hbefore hrun
    refine ⟨h.state ((closeRequested_iff_mem hrun).mpr hmem), ?_, h.silent⟩
    intro past e hsplit hpast he
    subst hsplit
    rw [exec_concat, Option.bind_eq_some_iff] at hrun
    obtain ⟨n, hn, hstep⟩ := hrun
    obtain ⟨hpastAlong, hlast⟩ := along_append hbefore hn
    have hn' : Remembered topic n :=
      exec_invariant_of_along CloseSurvives (Remembered topic) observe_remembered
        (remembered_fresh topic) hpastAlong hn
    have hclose := (closeRequested_iff_mem hn).mpr hpast
    obtain ⟨effects, hmove, -⟩ := observe_move hstep
    have hclosed : m.machine.state = .closed := by
      refine hmove.closed_of_down he ((hn'.state hclose).resolve_left fun hopening ↦ ?_)
      exact absurd (hlast.1 he hopening) (by simp [hclose])
    exact ⟨hclosed, h.latch hclosed⟩

/-- Up, a `close()` while opening, down, up again. -/
def lostClose : List Input :=
  [.event .connectionUp, .close, .event .connectionDown, .event .connectionUp]

/-- The close is lost: the disconnection leaves the machine down instead of closed, and the next
connection is subscribed to again. -/
theorem lostClose_not_kept :
    let topic : ChannelMarketPair := ⟨ascii "orderbook", ascii "BTC/USD"⟩
    (¬∀ before m, before <+: lostClose → exec observe before (fresh topic) = some m →
        .close ∈ before → CloseKept topic before m) ∧
      ∃ m, exec observe lostClose (fresh topic) = some m ∧ m.machine.state = .opening ∧
        sentMessages m.history = [makeSubscribeMessage topic (ascii "subscribe"),
          makeSubscribeMessage topic (ascii "subscribe")] := by
  intro topic
  refine ⟨fun hkept ↦ ?_, _, rfl, rfl, rfl⟩
  have hprefix : [.event .connectionUp, .close, .event .connectionDown] <+: lostClose :=
    ⟨[.event .connectionUp], rfl⟩
  have hstate := (hkept _ _ hprefix rfl (by simp)).state
  exact absurd hstate (by decide)

end Ftx

end BoostConnector
