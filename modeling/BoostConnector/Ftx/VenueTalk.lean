import BoostConnector.Ftx.Venue

/-!
# What is on its way between the machines and the venue

The state of a machine is what it knows of the venue. `Converses` relates the machines of all
subscriptions to the frames on their way to the venue, to what it publishes and to the messages on
their way back, channel by channel. Each thing that a machine can be told keeps the relation, and a
message that the machine of the conversation reads is one that it expects (`Converses.response`).
-/

namespace BoostConnector

namespace Ftx

open Conversation (Agrees Phase Reply Request Talk)

open Transition

/-! ## Machines -/

/-- The part that a machine plays on its channel. -/
def StateType.phase? : StateType → Option Phase
  | down | closed => none
  | opening => some .asking
  | «open» => some .having
  | closing => some .leaving

theorem StateType.phase?_eq_none {state : StateType} :
    state.phase? = none ↔ state = .down ∨ state = .closed := by
  rcases state with _ | _ | _ | _ | _ <;> simp [phase?]

namespace StateMachine

variable {sm : StateMachine}

def phaseOn (index : ChannelMarketPair) (sm : StateMachine) : Option Phase :=
  if sm.topic = index then sm.state.phase? else none

@[simp] theorem phaseOn_self (sm : StateMachine) : sm.phaseOn sm.topic = sm.state.phase? :=
  if_pos rfl

theorem phaseOn_of_ne {index : ChannelMarketPair} (h : sm.topic ≠ index) :
    sm.phaseOn index = none := if_neg h

theorem topic_feed (sm : StateMachine) (input : Input) : (sm.feed input).1.topic = sm.topic := by
  have hmove := sm.feed_move input
  generalize (sm.feed input).1 = next, (sm.feed input).2 = effects at hmove ⊢
  rcases hmove with _ | _ | _ | _ | _ | _ | _ | _ | _ | _ | _ <;> rfl

/-- The latch is set just where the machine is closed, and it stays closed. -/
theorem closedLatch_feed (h : sm.closedLatch = true ↔ sm.state = .closed) (input : Input) :
    (sm.feed input).1.closedLatch = true ↔ (sm.feed input).1.state = .closed := by
  have hunset (hstate : sm.state ≠ .closed) : ¬sm.closedLatch = true :=
    fun hlatch ↦ hstate (h.mp hlatch)
  have hmove := sm.feed_move input
  generalize (sm.feed input).1 = next, (sm.feed input).2 = effects at hmove ⊢
  cases hmove with
  | ignored hquiet hdown hup => exact h
  | up hstate he => exact iff_of_false (hunset (by simp [hstate])) (by simp)
  | lost hstate he =>
    refine iff_of_false (hunset ?_) (by simp)
    rcases hstate with hstate | hstate <;> simp [hstate]
  | subscribed hstate he hclose => exact iff_of_false (hunset (by simp [hstate])) (by simp)
  | subscribedClosing hstate he hclose => exact iff_of_false (hunset (by simp [hstate])) (by simp)
  | closedDown hstate he => exact iff_of_true rfl rfl
  | unsubscribed hstate he => exact iff_of_true rfl rfl
  | closeAgain hclose => exact h
  | closeNoted hclose hstate => exact h
  | closeDown hclose hstate => exact iff_of_true rfl rfl
  | closeOpen hclose hstate => exact iff_of_false (hunset (by simp [hstate])) (by simp)

/-- A machine is on its way to `closed` or there only if it was asked to close, and then it is not
open. -/
def Heeds (sm : StateMachine) : Prop :=
  (sm.closeRequested = false → sm.state ≠ .closing ∧ sm.state ≠ .closed) ∧
    (sm.closeRequested = true → sm.state ≠ .open)

theorem Heeds.feed (h : sm.Heeds) (input : Input) : (sm.feed input).1.Heeds := by
  have hmove := sm.feed_move input
  generalize (sm.feed input).1 = next, (sm.feed input).2 = effects at hmove ⊢
  cases hmove with
  | ignored hquiet hdown hup => exact h
  | up hstate he => exact ⟨by simp, by simp⟩
  | lost hstate he => exact ⟨by simp, by simp⟩
  | subscribed hstate he hclose => exact ⟨by simp, by simp [hclose]⟩
  | subscribedClosing hstate he hclose => exact ⟨by simp [hclose], by simp⟩
  | closedDown hstate he =>
    exact ⟨fun hclose ↦ absurd hstate (h.1 hclose).1, by simp [enterClosedState]⟩
  | unsubscribed hstate he =>
    exact ⟨fun hclose ↦ absurd hstate (h.1 hclose).1, by simp [enterClosedState]⟩
  | closeAgain hclose => exact h
  | closeNoted hclose hstate =>
    refine ⟨by simp, fun _ ↦ ?_⟩
    rcases hstate with hstate | hstate | hstate <;> simp [hstate]
  | closeDown hclose hstate => exact ⟨by simp, by simp⟩
  | closeOpen hclose hstate => exact ⟨by simp, by simp⟩

/-- Only a disconnection leads to `down`, and `connection_up` leads out of it. -/
theorem state_processEvent_ne_down {e : ChannelEvent} (h : e.isUp = true ∨ sm.state ≠ .down)
    (he : e.isDown = false) : (sm.processEvent e).1.state ≠ .down := by
  have hmove := sm.processEvent_move e
  generalize (sm.processEvent e).1 = next, (sm.processEvent e).2 = effects at hmove ⊢
  cases hmove with
  | ignored hquiet hdown hup => exact h.elim hup id
  | lost hstate hlost => exact absurd (he.symm.trans hlost) (by decide)
  | closedDown hstate hlost => exact absurd (he.symm.trans hlost) (by decide)
  | _ => simp [enterClosedState]

theorem closeRequested_processEvent (sm : StateMachine) (e : ChannelEvent) :
    (sm.processEvent e).1.closeRequested = sm.closeRequested := by
  have hmove := sm.processEvent_move e
  generalize (sm.processEvent e).1 = next, (sm.processEvent e).2 = effects at hmove ⊢
  rcases hmove with _ | _ | _ | _ | _ | _ | _ <;> rfl

theorem closeRequested_close (sm : StateMachine) : sm.close.1.closeRequested = true := by
  have hmove : Move sm .close sm.close.1 sm.close.2 := close_move
  generalize sm.close.1 = next, sm.close.2 = effects at hmove ⊢
  rcases hmove with _ | _ | _ | _ | _ | _ | _ | hclose | _ | _ | _
  · exact hclose
  all_goals rfl

theorem state_close_ne_down (h : sm.state ≠ .down) : sm.close.1.state ≠ .down := by
  have hmove : Move sm .close sm.close.1 sm.close.2 := close_move
  generalize sm.close.1 = next, sm.close.2 = effects at hmove ⊢
  rcases hmove with _ | _ | _ | _ | _ | _ | _ | _ | ⟨_, _⟩ | _ | _
  · exact h
  · exact h
  all_goals simp

end StateMachine

/-! ## What a machine does with the messages that it expects -/

/-- The event is a message, and a machine in the state does nothing about it but send. -/
def Expected (x : StateType × ChannelEvent) : Prop :=
  x.2.isResponse = true → ∀ sm : StateMachine, sm.state = x.1 →
    ∀ effect ∈ (sm.processEvent x.2).2, ∃ payload, effect = .send payload

theorem decodeResponse_of_granted {jframe : Json.Value} (h : replyKind jframe = .granted) :
    ∃ o, (ChannelEvent.response jframe).decodeResponse = some (o, ascii "subscribed") := by
  unfold replyKind at h
  split at h
  · rename_i o type hdecode
    split_ifs at h with htype
    exact ⟨o, htype ▸ hdecode⟩
  · exact absurd h (by simp)

theorem decodeResponse_of_withdrawn {jframe : Json.Value} (h : replyKind jframe = .withdrawn) :
    ∃ o, (ChannelEvent.response jframe).decodeResponse = some (o, ascii "unsubscribed") := by
  unfold replyKind at h
  split at h
  · rename_i o type hdecode
    split_ifs at h with _ htype
    exact ⟨o, htype ▸ hdecode⟩
  · exact absurd h (by simp)

theorem decodeResponse_of_data {jframe : Json.Value} (h : replyKind jframe = .data) :
    ∃ o type, (ChannelEvent.response jframe).decodeResponse = some (o, type) ∧
      (type = ascii "partial" ∨ type = ascii "update" ∨
        type = ascii "info" ∧ StateMachine.handleInfo o = []) := by
  unfold replyKind at h
  split at h
  · rename_i o type hdecode
    split_ifs at h with _ _ hpartial hupdate hinfo
    · exact ⟨o, type, hdecode, .inl hpartial⟩
    · exact ⟨o, type, hdecode, .inr (.inl hupdate)⟩
    · exact ⟨o, type, hdecode, .inr (.inr ⟨hinfo.1, List.isEmpty_iff.mp hinfo.2⟩)⟩
  · exact absurd h (by simp)

namespace StateMachine

variable {sm : StateMachine} {jframe : Json.Value}

theorem processEvent_granted (hstate : sm.state = .opening) (h : replyKind jframe = .granted) :
    sm.processEvent (.response jframe) =
      if sm.closeRequested then sm.enterClosingState else ({ sm with state := .open }, []) := by
  have hsubscribed : (ChannelEvent.response jframe).isSubscribed = true :=
    ChannelEvent.isSubscribed_iff_decodeResponse.mpr (decodeResponse_of_granted h)
  simp only [processEvent, hstate, processOpeningEvent, hsubscribed, if_true]
  rfl

theorem processEvent_data (hstate : sm.state = .open ∨ sm.state = .closing)
    (h : replyKind jframe = .data) : sm.processEvent (.response jframe) = (sm, []) := by
  obtain ⟨o, type, hdecode, htype⟩ := decodeResponse_of_data h
  rcases hstate with hstate | hstate
  · simp only [processEvent, hstate, processOpenEvent, hdecode]
    rcases htype with rfl | rfl | ⟨rfl, hinfo⟩
    · rfl
    · rfl
    · rw [hinfo]
      rfl
  · simp only [processEvent, hstate, processClosingEvent, hdecode]
    rcases htype with rfl | rfl | ⟨rfl, hinfo⟩
    · rfl
    · rfl
    · rw [hinfo]
      rfl

theorem processEvent_withdrawn (hstate : sm.state = .closing)
    (h : replyKind jframe = .withdrawn) :
    sm.processEvent (.response jframe) = (sm.enterClosedState, []) := by
  obtain ⟨o, hdecode⟩ := decodeResponse_of_withdrawn h
  simp only [processEvent, hstate, processClosingEvent, hdecode]
  rfl

end StateMachine

/-- The states, in the order of the conversation, with the messages that they expect. -/
theorem next_cases {state : StateType} {phase : Phase} {r : Reply} {q : Option Phase}
    (hphase : state.phase? = some phase) (hnext : phase.next r = some q) :
    (state = .opening ∧ phase = .asking ∧ r = .granted ∧ q = some .having) ∨
      ((state = .open ∨ state = .closing) ∧ r = .data ∧ q = some phase) ∨
      state = .closing ∧ phase = .leaving ∧ r = .withdrawn ∧ q = none := by
  rcases state with _ | _ | _ | _ | _ <;> simp [StateType.phase?] at hphase <;> subst hphase <;>
    rcases r with _ | _ | _ | _ <;> simp [Phase.next, eq_comm] at hnext ⊢ <;> exact hnext

theorem expected_of_next {state : StateType} {jframe : Json.Value} {phase : Phase}
    {q : Option Phase} (hphase : state.phase? = some phase)
    (hnext : phase.next (replyKind jframe) = some q) : Expected (state, .response jframe) := by
  intro _ sm hsm effect heffect
  rcases next_cases hphase hnext with
    ⟨rfl, -, hkind, -⟩ | ⟨hstate, hkind, -⟩ | ⟨rfl, -, hkind, -⟩
  · rw [StateMachine.processEvent_granted hsm hkind] at heffect
    split_ifs at heffect
    · exact ⟨_, List.mem_singleton.mp heffect⟩
    · exact absurd heffect List.not_mem_nil
  · rw [StateMachine.processEvent_data (hsm ▸ hstate) hkind] at heffect
    exact absurd heffect List.not_mem_nil
  · rw [StateMachine.processEvent_withdrawn hsm hkind] at heffect
    exact absurd heffect List.not_mem_nil

/-! ## Frames -/

theorem requestOn_subscribe (topic index : ChannelMarketPair) :
    (Frame.json (makeSubscribeMessage topic (ascii "subscribe"))).requestOn index =
      if topic = index then some .ask else none := rfl

theorem requestOn_unsubscribe (topic index : ChannelMarketPair) :
    (Frame.json (makeSubscribeMessage topic (ascii "unsubscribe"))).requestOn index =
      if topic = index then some .giveBack else none := rfl

def Effect.frame? : Effect → Option Frame
  | .send payload => some (.json payload)
  | _ => none

theorem Connector.writeQueue_performAll (c : Connector) (effects : List Effect) :
    (c.performAll effects).writeQueue = c.writeQueue ++ effects.filterMap Effect.frame? := by
  induction effects generalizing c with
  | nil => exact (List.append_nil _).symm
  | cons e effects ih =>
    refine (ih (c.perform e)).trans ?_
    rw [List.filterMap_cons]
    rcases e with payload | _ | _ | _
    · simp [perform, send, modifyTasks, Effect.frame?]
    · simp only [perform, drop]
      split_ifs <;> rfl
    · rfl
    · rfl

namespace Venue

variable {v : Venue} {frames : List Frame} {index : ChannelMarketPair}

theorem talk_send {frame : Frame} {r : Request} (h : frame.requestOn index = some r) :
    v.talk (frames ++ [frame]) index = (v.talk frames index).send r := by
  simp [talk, Talk.send, h]

theorem talk_append {more : List Frame} (h : ∀ frame ∈ more, frame.requestOn index = none) :
    v.talk (frames ++ more) index = v.talk frames index := by
  have hnone : more.filterMap (·.requestOn index) = [] := List.filterMap_eq_nil_iff.mpr h
  simp [talk, hnone]

theorem publish_inbox {v' : Venue} {jframe : Json.Value} (h : v.publish jframe = some v') :
    v'.inbox = v.inbox ∧ v'.refused = v.refused := by
  unfold publish at h
  split at h
  · rw [← Option.some_inj.mp h]
    exact ⟨rfl, rfl⟩
  · split_ifs at h
    rw [← Option.some_inj.mp h]
    exact ⟨rfl, rfl⟩
  · exact absurd h (by simp)

end Venue

/-! ## Conversations -/

/-- On every channel at most one machine has something to do with the venue, and what is on its way
agrees with the state that it is in. -/
def Converses (machines : List StateMachine) (frames : List Frame) (v : Venue) : Prop :=
  ∀ index, ∃ p : Option Phase, machines.filterMap (·.phaseOn index) = p.toList ∧
    Agrees p (v.talk frames index)

namespace Converses

variable {machines : List StateMachine} {frames : List Frame} {v v' : Venue} {i : ℕ}
  {sm sm' : StateMachine}

/-- A machine that has something to do with the venue is the one that the conversation is with. -/
theorem eq_phase {index : ChannelMarketPair} {p : Option Phase} {phase : Phase}
    (hi : machines[i]? = some sm) (hp : machines.filterMap (·.phaseOn index) = p.toList)
    (hphase : sm.phaseOn index = some phase) : p = some phase := by
  have hmem : phase ∈ p.toList :=
    hp ▸ List.mem_filterMap.mpr ⟨sm, List.mem_of_getElem? hi, hphase⟩
  rwa [Option.mem_toList] at hmem

/-- A machine moves, and with it the conversation on its channel. -/
theorem set {frames' : List Frame} (h : Converses machines frames v) (hi : machines[i]? = some sm)
    (htopic : sm'.topic = sm.topic)
    (hothers : ∀ index, sm.topic ≠ index → v'.talk frames' index = v.talk frames index)
    (hself : ∀ p : Option Phase, machines.filterMap (·.phaseOn sm.topic) = p.toList →
      Agrees p (v.talk frames sm.topic) → ∃ q : Option Phase,
        (machines.set i sm').filterMap (·.phaseOn sm.topic) = q.toList ∧
          Agrees q (v'.talk frames' sm.topic)) : Converses (machines.set i sm') frames' v' := by
  intro index
  obtain ⟨p, hp, hagrees⟩ := h index
  by_cases hindex : sm.topic = index
  · subst hindex
    exact hself p hp hagrees
  · refine ⟨p, ?_, (hothers index hindex).symm ▸ hagrees⟩
    rw [Collections.filterMap_set_of_eq hi, hp]
    rw [StateMachine.phaseOn_of_ne hindex, StateMachine.phaseOn_of_ne (htopic ▸ hindex)]

/-- A machine moves and goes on playing the same part. -/
theorem set_of_eq (h : Converses machines frames v) (hi : machines[i]? = some sm)
    (htopic : sm'.topic = sm.topic) (hphase : sm'.state.phase? = sm.state.phase?) :
    Converses (machines.set i sm') frames v := by
  refine h.set hi htopic (fun _ _ ↦ rfl) fun p hp hagrees ↦ ⟨p, ?_, hagrees⟩
  rw [Collections.filterMap_set_of_eq hi, hp]
  rw [StateMachine.phaseOn_self, StateMachine.phaseOn, if_pos htopic, hphase]

/-- The machine that the conversation is with moves. -/
theorem voices_set {p : Option Phase} (hi : machines[i]? = some sm)
    (htopic : sm'.topic = sm.topic)
    (hp : machines.filterMap (·.phaseOn sm.topic) = p.toList) (hphase : sm.state.phase? = p) :
    (machines.set i sm').filterMap (·.phaseOn sm.topic) = sm'.state.phase?.toList := by
  rw [← hphase, ← StateMachine.phaseOn_self] at hp
  rw [Collections.filterMap_set_of_alone hi hp, StateMachine.phaseOn, if_pos htopic]

/-- Frames that are no requests change nothing. -/
theorem append {more : List Frame} (h : Converses machines frames v)
    (hmore : ∀ frame ∈ more, frame.request? = none) : Converses machines (frames ++ more) v := by
  intro index
  obtain ⟨p, hp, hagrees⟩ := h index
  refine ⟨p, hp, ?_⟩
  rwa [Venue.talk_append fun frame hframe ↦ by rw [Frame.requestOn, hmore frame hframe]; rfl]

/-- Nothing is on its way on a new connection. -/
theorem fresh (hmachines : ∀ sm ∈ machines, sm.state.phase? = none)
    (hframes : ∀ frame ∈ frames, frame.request? = none) : Converses machines frames {} := by
  refine Converses.append (fun index ↦ ⟨none, ?_, rfl⟩ : Converses machines [] {}) hframes
  refine List.filterMap_eq_nil_iff.mpr fun sm hsm ↦ ?_
  unfold StateMachine.phaseOn
  split_ifs
  · exact hmachines sm hsm
  · rfl

/-! ### The machine is closed -/

/-- The machine that has its channel gives it back. -/
theorem leave (h : Converses machines frames v) (hi : machines[i]? = some sm)
    (htopic : sm'.topic = sm.topic) (hphase : sm.state.phase? = some .having)
    (hphase' : sm'.state.phase? = some .leaving) :
    Converses (machines.set i sm')
      (frames ++ [.json (makeSubscribeMessage sm.topic (ascii "unsubscribe"))]) v := by
  refine h.set hi htopic (fun index hindex ↦ ?_) fun p hp hagrees ↦ ?_
  · refine Venue.talk_append fun frame hframe ↦ ?_
    rw [List.mem_singleton.mp hframe, requestOn_unsubscribe, if_neg hindex]
  · obtain rfl := eq_phase hi hp (sm.phaseOn_self.trans hphase)
    refine ⟨some .leaving, ?_, ?_⟩
    · rw [voices_set hi htopic hp hphase, hphase']
    · have hsend := hagrees.giveBack
      rwa [← Venue.talk_send (by rw [requestOn_unsubscribe, if_pos rfl])] at hsend

theorem close (h : Converses machines frames v) (hi : machines[i]? = some sm) :
    Converses (machines.set i sm.close.1) (frames ++ sm.close.2.filterMap Effect.frame?) v := by
  have hmove : Move sm .close sm.close.1 sm.close.2 := StateMachine.close_move
  generalize sm.close.1 = next, sm.close.2 = effects at hmove ⊢
  cases hmove with
  | closeAgain hclose =>
    rw [List.filterMap_nil, List.append_nil]
    exact h.set_of_eq hi rfl rfl
  | closeNoted hclose hstate =>
    rw [List.filterMap_nil, List.append_nil]
    exact h.set_of_eq hi rfl rfl
  | closeDown hclose hstate =>
    rw [List.filterMap_nil, List.append_nil]
    refine h.set_of_eq hi rfl ?_
    rw [hstate]
    rfl
  | closeOpen hclose hstate =>
    refine h.leave hi rfl ?_ rfl
    rw [hstate]
    rfl

/-! ### The machine is told that the connection is up -/

theorem up (h : Converses machines frames v) (hi : machines[i]? = some sm)
    (hidle : machines.filterMap (·.phaseOn sm.topic) = []) :
    Converses (machines.set i (sm.processEvent .connectionUp).1)
      (frames ++ (sm.processEvent .connectionUp).2.filterMap Effect.frame?) v := by
  -- a machine with which nobody converses is down or closed
  have hphase : sm.state.phase? = none := by
    rw [← sm.phaseOn_self]
    exact List.filterMap_eq_nil_iff.mp hidle sm (List.mem_of_getElem? hi)
  rcases StateType.phase?_eq_none.mp hphase with hstate | hstate
  · have hsubscribes : sm.processEvent .connectionUp = ({ sm with state := .opening },
        [.assertUp, .send (makeSubscribeMessage sm.topic (ascii "subscribe"))]) := by
      rw [StateMachine.processEvent, hstate]
      rfl
    rw [hsubscribes]
    refine h.set hi rfl (fun index hindex ↦ ?_) fun p hp hagrees ↦ ?_
    · refine Venue.talk_append fun frame hframe ↦ ?_
      rw [List.mem_singleton.mp hframe, requestOn_subscribe, if_neg hindex]
    · obtain rfl : p = none := by
        rw [hidle] at hp
        exact Option.toList_eq_nil_iff.mp hp.symm
      refine ⟨_, voices_set hi rfl hp hphase, ?_⟩
      have hsend := hagrees.ask
      rwa [← Venue.talk_send (by rw [requestOn_subscribe, if_pos rfl])] at hsend
  · have hignores : sm.processEvent .connectionUp = (sm, [.assertNotClosed]) := by
      rw [StateMachine.processEvent, hstate]
      rfl
    rw [hignores]
    refine Converses.append (h.set_of_eq hi rfl rfl) fun frame hframe ↦ ?_
    exact absurd hframe List.not_mem_nil

/-! ### A message is read -/

/-- The message is not on the channel. -/
theorem talk_of_replyOn {jframe : Json.Value} {outbox : List Json.Value}
    {index : ChannelMarketPair} (h : replyOn index jframe = none) :
    ({ v with outbox } : Venue).talk frames index =
      ({ v with outbox := jframe :: outbox } : Venue).talk frames index := by
  simp [Venue.talk, h]

theorem skip {jframe : Json.Value} {outbox : List Json.Value}
    (h : Converses machines frames { v with outbox := jframe :: outbox })
    (hroute : ∀ index, route jframe ≠ some (.channel index)) :
    Converses machines frames { v with outbox } := by
  intro index
  obtain ⟨p, hp, hagrees⟩ := h index
  refine ⟨p, hp, ?_⟩
  have hreply : replyOn index jframe = none := by
    unfold replyOn
    split
    · exact absurd ‹_› (hroute _)
    · rfl
  rwa [talk_of_replyOn hreply]

/-- A message on a channel is one that somebody expects. -/
theorem expects {jframe : Json.Value} {outbox : List Json.Value} {index : ChannelMarketPair}
    (h : Converses machines frames { v with outbox := jframe :: outbox })
    (hroute : route jframe = some (.channel index)) : ∃ (phase : Phase) (q : Option Phase),
      machines.filterMap (·.phaseOn index) = [phase] ∧ phase.next (replyKind jframe) = some q ∧
        Agrees q (({ v with outbox } : Venue).talk frames index) := by
  obtain ⟨p, hp, hagrees⟩ := h index
  have hreplies : (({ v with outbox := jframe :: outbox } : Venue).talk frames index).replies =
      replyKind jframe :: outbox.filterMap (replyOn index) := by
    simp [Venue.talk, replyOn, hroute]
  obtain ⟨phase, q, rfl, hnext, hq⟩ := hagrees.received hreplies
  exact ⟨phase, q, hp, hnext, hq⟩

/-- The machine that expects it reads the message. -/
theorem read {jframe : Json.Value} {outbox : List Json.Value} {phase : Phase} {q : Option Phase}
    (h : Converses machines frames { v with outbox := jframe :: outbox })
    (hi : machines[i]? = some sm) (hroute : route jframe = some (.channel sm.topic))
    (hphase : sm.state.phase? = some phase) (hnext : phase.next (replyKind jframe) = some q)
    (htopic : sm'.topic = sm.topic) (hphase' : sm'.state.phase? = q) :
    Converses (machines.set i sm') frames { v with outbox } := by
  refine h.set hi htopic (fun index hindex ↦ ?_) fun p hp hagrees ↦ ?_
  · refine talk_of_replyOn ?_
    simp only [replyOn, hroute, if_neg hindex]
  · obtain ⟨phase', q', hvoices, hnext', hq⟩ := h.expects hroute
    obtain rfl : phase = phase' := by
      rw [hp, eq_phase hi hp (sm.phaseOn_self.trans hphase)] at hvoices
      exact List.singleton_inj.mp hvoices
    obtain rfl : q = q' := Option.some_inj.mp (hnext.symm.trans hnext')
    refine ⟨q, ?_, hq⟩
    rw [voices_set (p := some phase) hi htopic hvoices hphase, hphase']

/-- **A machine that reads a message expects it**, if it is the one that the conversation is
with. -/
theorem response {jframe : Json.Value} {outbox : List Json.Value}
    (h : Converses machines frames { v with outbox := jframe :: outbox })
    (hi : machines[i]? = some sm) (hroute : route jframe = some (.channel sm.topic))
    (hvoice : machines.filterMap (·.phaseOn sm.topic) = sm.state.phase?.toList) :
    Expected (sm.state, .response jframe) ∧
      Converses (machines.set i (sm.processEvent (.response jframe)).1)
        (frames ++ (sm.processEvent (.response jframe)).2.filterMap Effect.frame?)
        { v with outbox } := by
  obtain ⟨phase, q, hvoices, hnext, -⟩ := h.expects hroute
  -- the conversation on the channel is the one with this machine
  have hphase : sm.state.phase? = some phase := by
    rw [hvoice] at hvoices
    exact Option.toList_eq_singleton_iff.mp hvoices
  refine ⟨expected_of_next hphase hnext, ?_⟩
  have hread {sm' : StateMachine} (htopic : sm'.topic = sm.topic) (hphase' : sm'.state.phase? = q) :
      Converses (machines.set i sm') frames { v with outbox } :=
    h.read hi hroute hphase hnext htopic hphase'
  rcases next_cases hphase hnext with
    ⟨hstate, -, hkind, rfl⟩ | ⟨hstate, hkind, rfl⟩ | ⟨hstate, -, hkind, rfl⟩
  · rw [StateMachine.processEvent_granted hstate hkind]
    split_ifs with hclose
    · -- the close request that was noted is carried out at once
      have hopened : Converses (machines.set i { sm with state := .open }) frames
          { v with outbox } := hread rfl rfl
      have hleft := hopened.leave (List.getElem?_set_self (List.getElem?_eq_some_iff.mp hi).1)
        (rfl : ({ sm with state := .closing } : StateMachine).topic = sm.topic) rfl rfl
      rwa [List.set_set] at hleft
    · rw [List.filterMap_nil, List.append_nil]
      exact hread rfl rfl
  · rw [StateMachine.processEvent_data hstate hkind, List.filterMap_nil, List.append_nil]
    exact hread rfl hphase
  · rw [StateMachine.processEvent_withdrawn hstate hkind, List.filterMap_nil, List.append_nil]
    exact hread rfl rfl

/-! ### The venue takes a frame or sends a message -/

/-- The oldest request is one that the venue confirms. -/
theorem verdict {frame : Frame} {index : ChannelMarketPair} {r : Request}
    (h : Converses machines (frame :: frames) v) (hrequest : frame.request? = some (index, r)) :
    (v.talk [] index).verdict r = r.reply := by
  obtain ⟨p, -, hagrees⟩ := h index
  have hrequests : (v.talk (frame :: frames) index).requests =
      r :: frames.filterMap (·.requestOn index) := by
    simp [Venue.talk, Frame.requestOn, hrequest]
  have hverdict : (v.talk [] index).verdict r ≠ .refused := (hagrees.answered hrequests).1
  unfold Talk.verdict at hverdict ⊢
  split_ifs at hverdict ⊢
  · exact absurd rfl hverdict
  · rfl

/-- No request is refused. -/
theorem answer {frame : Frame} {reply : Json.Value} {index : ChannelMarketPair} {r : Request}
    (h : Converses machines (frame :: frames) v) (hrequest : frame.request? = some (index, r))
    (hreply : replyOn index reply = some ((v.talk [] index).verdict r))
    (hpublished : v'.published = Function.update v.published index r.wants)
    (houtbox : v'.outbox = v.outbox ++ [reply]) :
    v.published index ≠ r.wants ∧ Converses machines frames v' := by
  have hself : v'.talk frames index = (v.talk (frame :: frames) index).answered r
      (frames.filterMap (·.requestOn index)) := by
    simp only [Venue.talk, Talk.answered, hpublished, houtbox, Function.update_self,
      List.filterMap_append, List.filterMap_cons, hreply]
    rfl
  have hrequests : (v.talk (frame :: frames) index).requests =
      r :: frames.filterMap (·.requestOn index) := by
    simp [Venue.talk, Frame.requestOn, hrequest]
  -- the answer names the channel of the request, so the other conversations stay
  have hother {k : ChannelMarketPair} (hk : index ≠ k) :
      v'.talk frames k = v.talk (frame :: frames) k := by
    have hframe : frame.requestOn k = none := by simp [Frame.requestOn, hrequest, hk]
    have hroute : replyOn k reply = none := by
      unfold replyOn at hreply ⊢
      split at hreply
      · rename_i l hl
        split_ifs at hreply with hindex
        exact if_neg (hindex ▸ hk)
      · exact absurd hreply (by simp)
    simp [Venue.talk, hpublished, houtbox, hframe, hroute, Function.update_of_ne hk.symm]
  obtain ⟨p, hp, hagrees⟩ := h index
  obtain ⟨hverdict, hanswered⟩ := hagrees.answered hrequests
  refine ⟨fun hwants ↦ hverdict (if_pos hwants), fun k ↦ ?_⟩
  by_cases hk : index = k
  · subst hk
    exact ⟨p, hp, hself ▸ hanswered⟩
  · obtain ⟨p', hp', hagrees'⟩ := h k
    exact ⟨p', hp', (hother hk).symm ▸ hagrees'⟩

/-- The venue takes a frame that is no request. -/
theorem take {frame : Frame} (h : Converses machines (frame :: frames) v)
    (hframe : frame.request? = none) : Converses machines frames v := by
  intro index
  obtain ⟨p, hp, hagrees⟩ := h index
  refine ⟨p, hp, ?_⟩
  have hnone : frame.requestOn index = none := by simp [Frame.requestOn, hframe]
  simpa [Venue.talk, hnone] using hagrees

theorem publish {jframe : Json.Value} (h : Converses machines frames v)
    (hv : v.publish jframe = some v') : Converses machines frames v' := by
  unfold Venue.publish at hv
  intro index
  obtain ⟨p, hp, hagrees⟩ := h index
  split at hv
  · rename_i hroute
    rw [Option.some_inj] at hv
    subst hv
    exact ⟨p, hp, by simpa [Venue.talk, replyOn, hroute] using hagrees⟩
  · rename_i k hroute
    split_ifs at hv with hdata
    rw [Option.some_inj] at hv
    subst hv
    refine ⟨p, hp, ?_⟩
    by_cases hk : k = index
    · subst hk
      have hpublished := hagrees.published hdata.1
      simpa [Venue.talk, Talk.published, replyOn, hroute, hdata.2] using hpublished
    · simpa [Venue.talk, replyOn, hroute, hk] using hagrees
  · exact absurd hv (by simp)

/-! ### Nothing is on its way -/

/-- What is published is what open machines have. -/
theorem atRest (h : Converses machines [] v) (houtbox : v.outbox = []) :
    (∀ index, v.published index = true ↔ ∃ sm ∈ machines, sm.topic = index ∧ sm.state = .open) ∧
      ∀ sm ∈ machines, sm.state ≠ .opening ∧ sm.state ≠ .closing := by
  have hrest (index : ChannelMarketPair) : machines.filterMap (·.phaseOn index) =
      (if v.published index then some Phase.having else none).toList := by
    obtain ⟨p, hp, hagrees⟩ := h index
    rw [hp, hagrees.atRest rfl (by simp [Venue.talk, houtbox])]
    rfl
  have hvoice {sm : StateMachine} (hsm : sm ∈ machines) {phase : Phase}
      (hphase : sm.state.phase? = some phase) :
      v.published sm.topic = true ∧ phase = .having := by
    have hmem : phase ∈ machines.filterMap (·.phaseOn sm.topic) :=
      List.mem_filterMap.mpr ⟨sm, hsm, sm.phaseOn_self.trans hphase⟩
    rw [hrest, Option.mem_toList] at hmem
    split_ifs at hmem with hpublished
    · exact ⟨hpublished, (Option.some_inj.mp hmem).symm⟩
  refine ⟨fun index ↦ ⟨fun hpublished ↦ ?_, ?_⟩, fun sm hsm ↦ ⟨fun hstate ↦ ?_, fun hstate ↦ ?_⟩⟩
  · have hhaving : Phase.having ∈ machines.filterMap (·.phaseOn index) := by
      rw [hrest, if_pos hpublished]
      exact List.mem_singleton_self _
    -- whoever has the channel is an open machine
    obtain ⟨sm, hsm, hphase⟩ := List.mem_filterMap.mp hhaving
    unfold StateMachine.phaseOn at hphase
    split_ifs at hphase with htopic
    refine ⟨sm, hsm, htopic, ?_⟩
    rcases hstate : sm.state with _ | _ | _ | _ | _ <;> simp [hstate, StateType.phase?] at hphase ⊢
  · rintro ⟨sm, hsm, rfl, hstate⟩
    have hphase : sm.state.phase? = some .having := by rw [hstate]; rfl
    exact (hvoice hsm hphase).1
  · have hphase : sm.state.phase? = some .asking := by rw [hstate]; rfl
    exact absurd (hvoice hsm hphase).2 (by decide)
  · have hphase : sm.state.phase? = some .leaving := by rw [hstate]; rfl
    exact absurd (hvoice hsm hphase).2 (by decide)

end Converses

end Ftx

end BoostConnector
