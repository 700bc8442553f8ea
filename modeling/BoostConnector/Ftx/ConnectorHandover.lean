import BoostConnector.Ftx.SubscriptionMove
import BoostConnector.Transition.HandoverOwnership

/-!
# The connector hands its channels over

The channel map and the subscriptions of a connector, seen as the slots and parties of the hand-over
protocol. Every step of the connector is a path of at most two steps of the protocol (`step_path`),
so the protocol's invariants hold of the connector's runs.
-/

namespace BoostConnector

namespace Ftx

open Handover (Moves Slot Party)

/-! ## The view -/

def ChannelState.slot (cs : ChannelState) : Slot := ⟨cs.node, cs.interest, cs.acquired, cs.onEvent⟩

theorem Pc.phase_wake (pc : Pc) : pc.wake.phase = pc.phase.wake := by
  cases pc with
  | waiting w => cases w <;> rfl
  | _ => rfl

theorem Pc.eq_waiting {pc : Pc} {w : Handover.Wait} (h : pc.phase = .waiting w) :
    pc = .waiting w := by
  cases pc with
  | waiting w' =>
    rw [Pc.phase, Handover.Phase.waiting.injEq] at h
    rw [h]
  | _ => simp [Pc.phase] at h

namespace Connector

variable {c d : Connector}

/-- The connector as a state of the hand-over protocol. -/
def view (c : Connector) : Handover.State ChannelMarketPair where
  slots index := (c.channelStates.lookup index).map ChannelState.slot
  parties := c.subs.map Subscription.party
  next := c.nextNode

theorem view_slots {index : ChannelMarketPair} {cs : ChannelState}
    (h : c.channelStates.lookup index = some cs) : c.view.slots index = some cs.slot := by
  simp only [view, h, Option.map_some]

theorem view_slots_none {index : ChannelMarketPair} (h : c.channelStates.lookup index = none) :
    c.view.slots index = none := by
  simp only [view, h, Option.map_none]

theorem slots_view_eq_some {c : Connector} {index : ChannelMarketPair} {e : Handover.Slot}
    (h : c.view.slots index = some e) :
    ∃ cs, c.channelStates.lookup index = some cs ∧ cs.slot = e := by
  rwa [view, Option.map_eq_some_iff] at h

theorem view_parties {i : ℕ} {s : Subscription} (h : c.subs[i]? = some s) :
    c.view.parties[i]? = some s.party := by
  rw [view, List.getElem?_map, h, Option.map_some]

theorem parties_view_eq_some {c : Connector} {i : ℕ} {p : Party ChannelMarketPair}
    (h : c.view.parties[i]? = some p) : ∃ s, c.subs[i]? = some s ∧ s.party = p := by
  rwa [view, List.getElem?_map, Option.map_eq_some_iff] at h

theorem view_setSub (c : Connector) (i : ℕ) (s : Subscription) :
    (c.setSub i s).view = c.view.setParty i s.party := by
  simp only [view, setSub, Handover.State.setParty, List.map_set]

@[simp] theorem lookup_setChannel (c : Connector) (index : ChannelMarketPair) (cs : ChannelState) :
    (c.setChannel index cs).channelStates.lookup index = some cs := AList.lookup_insert _

theorem view_setChannel (c : Connector) (index : ChannelMarketPair) (cs : ChannelState) :
    (c.setChannel index cs).view = c.view.setSlot index (some cs.slot) := by
  have hslots : (c.setChannel index cs).view.slots
      = Function.update c.view.slots index (some cs.slot) := by
    funext k
    by_cases hk : k = index
    · subst hk
      rw [Function.update_self]
      exact view_slots (lookup_setChannel c k cs)
    · rw [Function.update_of_ne hk]
      simp only [view, setChannel, AList.lookup_insert_ne hk]
  rw [Handover.State.setSlot, ← hslots]
  rfl

theorem view_erase (c : Connector) (index : ChannelMarketPair) :
    view { c with channelStates := c.channelStates.erase index }
      = c.view.setSlot index none := by
  have hslots : (view { c with channelStates := c.channelStates.erase index }).slots
      = Function.update c.view.slots index none := by
    funext k
    by_cases hk : k = index
    · subst hk
      rw [Function.update_self]
      exact view_slots_none (AList.lookup_erase _ _)
    · rw [Function.update_of_ne hk]
      simp only [view, AList.lookup_erase_ne hk]
  rw [Handover.State.setSlot, ← hslots]
  rfl

/-! ## The steps of a subscription -/

theorem Undisturbed.view_eq (h : Undisturbed c d) : d.view = c.view := by
  simp only [view, h.channelStates, h.nextNode, h.parties]

/-- The assert `a` of `release_channel` fails when party `i` releases. -/
def ReleaseFails (v : Handover.State ChannelMarketPair) (i : ℕ) (a : Assertion) : Prop :=
  ∃ p e, v.parties[i]? = some p ∧ p.phase = .owning ∧ v.slots p.key = some e ∧
    (a = .releaseAcquired ∧ e.acquired = false ∨ a = .releaseInterest ∧ e.interest = 0)

/-- The rest of a turn of subscription `i`, from a connector with the view `u` and the failures `f`:
nothing happens to the view, or the channel is released. -/
structure Ends (i : ℕ) (wake : Option ℕ) (u : Handover.State ChannelMarketPair)
    (f : List Assertion) (d : Connector) : Prop where
  view : d.view = u ∨ Handover.Step (.release i wake) u d.view
  failed : ∀ a ∈ d.failed, a.IsRelease → a ∈ f ∨ ReleaseFails u i a

theorem element_eq_some {index : ChannelMarketPair} {node : ℕ} {cs : ChannelState}
    (h : c.element index node = some cs) :
    c.channelStates.lookup index = some cs ∧ cs.node = node := by
  rw [element, Option.filter_eq_some_iff] at h
  obtain ⟨hlookup, hnode⟩ := h
  exact ⟨hlookup, of_decide_eq_true hnode⟩

theorem mem_failed_checkRelease {cs : ChannelState} {a : Assertion}
    (h : a ∈ (c.checkRelease cs).failed) : a ∈ c.failed ∨
      (a = .releaseAcquired ∧ cs.acquired = false ∨ a = .releaseInterest ∧ cs.interest = 0) := by
  rcases mem_failed_check h with h | ⟨rfl, hfails⟩
  · exact (mem_failed_check h).imp_right fun h ↦ .inl h
  · exact .inr (.inr ⟨rfl, by simpa using hfails⟩)

theorem mem_failed_releaseChannel {index : ChannelMarketPair} {node : ℕ} {wake : Option ℕ}
    {a : Assertion} (h : c.releaseChannel index node wake = some d) (ha : a ∈ d.failed) :
    a ∈ c.failed ∨ ∃ cs, c.element index node = some cs ∧
      (a = .releaseAcquired ∧ cs.acquired = false ∨ a = .releaseInterest ∧ cs.interest = 0) := by
  obtain ⟨cs, hcs, h⟩ := releaseChannel_cases h
  have hchecks : a ∈ (c.checkRelease cs).failed := by
    rcases h with ⟨-, -, rfl⟩ | ⟨-, hcancel⟩
    · exact ha
    · rcases cancelOne_cases hcancel with ⟨-, rfl, -⟩ | ⟨j, t, -, -, -, rfl⟩
      · exact ha
      · exact ha
  exact (mem_failed_checkRelease hchecks).imp_right fun hfails ↦ ⟨cs, hcs, hfails⟩

/-- `release_channel` and the return from `run` are one of the three releases of the protocol. -/
theorem releaseChannel_step {i : ℕ} {s : Subscription} {wake : Option ℕ}
    (hi : c.subs[i]? = some s) (hpc : s.pc.phase = .owning)
    (h : c.releaseChannel s.topic s.node wake = some d) :
    Handover.Step (.release i wake) c.view (d.setSub i { s with pc := .left }).view := by
  have hparty := view_parties hi
  obtain ⟨cs, hcs, h⟩ := releaseChannel_cases h
  obtain ⟨hlookup, hnode⟩ := element_eq_some hcs
  have hslot := view_slots hlookup
  rw [view_setSub]
  rcases h with ⟨hlast, rfl, rfl⟩ | ⟨hmore, hcancel⟩
  · have hstep := Handover.Step.releaseLast hparty hpc hslot hlast
    have hview : view { c.checkRelease cs with channelStates := c.channelStates.erase s.topic }
        = c.view.setSlot s.topic none := view_erase c s.topic
    rw [hview]
    exact hstep
  · rcases cancelOne_cases hcancel with ⟨rfl, rfl, hidle⟩ | ⟨j, r, rfl, hr, hwaits, rfl⟩
    · rw [view_setChannel]
      refine Handover.Step.releaseIdle hparty hpc hslot hmore ?_
      rintro q hq hwaits
      obtain ⟨r, hr, rfl⟩ := List.mem_map.mp hq
      refine hidle ⟨r, hr, ?_⟩
      rw [← hnode]
      exact hwaits
    · have hr' : c.subs[j]? = some r := hr
      have hwaits' : r.party.WaitsOn s.topic cs.node := by
        rw [hnode]
        exact hwaits
      have hji : j ≠ i := Handover.other_ne hparty hpc (view_parties hr') hwaits'
      have hstep := Handover.Step.releaseWake hparty hpc hslot hmore (view_parties hr') hwaits'
      -- the code completes the wait first and leaves afterwards
      rw [view_setSub, view_setChannel]
      simp only [Handover.State.setParty] at hstep ⊢
      rw [List.set_comm _ _ hji]
      have hwoken : Subscription.party { r with pc := r.pc.wake }
          = { r.party with phase := r.party.phase.wake } := by
        simp only [Subscription.party, Pc.phase_wake]
      rw [hwoken]
      exact hstep

theorem awaitClosed_ends {i : ℕ} {s : Subscription} {wake : Option ℕ} (hi : c.subs[i]? = some s)
    (hpc : s.pc.phase = .owning) (h : c.awaitClosed i s wake = some d) :
    Ends i wake c.view c.failed d := by
  rcases awaitClosed_cases h with rfl | ⟨e, he, rfl⟩
  · exact ⟨.inl rfl, fun a ha _ ↦ .inl ha⟩
  · refine ⟨.inr (releaseChannel_step hi hpc he), fun a ha _ ↦ ?_⟩
    refine (mem_failed_releaseChannel he ha).imp_right ?_
    rintro ⟨cs, hcs, hfails⟩
    exact ⟨s.party, cs.slot, view_parties hi, hpc, view_slots (element_eq_some hcs).1, hfails⟩

/-- What follows calls of the state machine can be seen as following the state before them. -/
theorem Ends.of_undisturbed {i : ℕ} {wake : Option ℕ} {e : Connector} (h : Undisturbed c d)
    (hends : Ends i wake d.view d.failed e) : Ends i wake c.view c.failed e where
  view := h.view_eq ▸ hends.view
  failed a ha hrelease :=
    (hends.failed a ha hrelease).imp (h.mem_failed_of_isRelease hrelease) (h.view_eq ▸ id)

theorem closeMachine_ends {i : ℕ} {s : Subscription} {wake : Option ℕ} (hi : c.subs[i]? = some s)
    (hpc : s.pc.phase = .owning) (h : c.closeMachine i s wake = some d) :
    Ends i wake c.view c.failed d := by
  unfold closeMachine at h
  have hparty : Subscription.party { s with sm := s.sm.close.1, pc := .awaitingClosed }
      = s.party := by
    rw [Subscription.party, Subscription.party, hpc]
    rfl
  refine Ends.of_undisturbed ((setSub_undisturbed hi hparty).trans
    (performAll_undisturbed _ s.sm.close.2)) (awaitClosed_ends ?_ rfl h)
  rw [performAll_subs]
  exact getElem?_setSub hi _

theorem awaitStop_ends {i : ℕ} {s : Subscription} {wake : Option ℕ} (hi : c.subs[i]? = some s)
    (hpc : s.pc.phase = .owning) (h : c.awaitStop i s wake = some d) :
    Ends i wake c.view c.failed d := by
  rcases awaitStop_cases h with rfl | h
  · exact ⟨.inl rfl, fun a ha _ ↦ .inl ha⟩
  · exact closeMachine_ends hi hpc h

/-- Subscription `i` owns the channel of the element it located. -/
def ownedView (c : Connector) (i : ℕ) (s : Subscription) (cs : ChannelState) :
    Handover.State ChannelMarketPair :=
  (c.view.setSlot s.topic (some { cs.slot with acquired := true, owner := some i })).setParty i
    { s.party with phase := .owning }

theorem view_taken (c : Connector) (i : ℕ) (s : Subscription) (cs : ChannelState) :
    (c.taken i s cs).view = c.ownedView i s cs := by
  rw [taken, view_setSub, view_setChannel]
  rfl

theorem acquire_ends {i : ℕ} {s t : Subscription} {wake : Option ℕ} (hi : c.subs[i]? = some t)
    (h : c.acquire i s wake = some d) :
    ∃ cs, c.channelStates.lookup s.topic = some cs ∧
      Ends i wake (c.ownedView i s cs) c.failed d := by
  obtain ⟨cs, hcs, h⟩ := acquire_cases h
  obtain ⟨hlookup, -⟩ := element_eq_some hcs
  have hsub := getElem?_taken hi s cs
  refine ⟨cs, hlookup, ?_⟩
  rw [← view_taken]
  rcases h with ⟨-, h⟩ | ⟨-, h⟩
  · refine Ends.of_undisturbed (handle_undisturbed _ i .connectionUp) (awaitStop_ends ?_ rfl h)
    rw [handle_of_sub hsub, performAll_subs]
    exact getElem?_setSub hsub _
  · exact awaitStop_ends hsub rfl h

/-- A turn of `run` of subscription `i`: it may take a step and then release the channel. `u` is the
view in between. -/
structure Turn (i : ℕ) (wake : Option ℕ) (u : Handover.State ChannelMarketPair)
    (c d : Connector) : Prop where
  takes : u = c.view ∨
    ∃ l, (l = .enter i ∨ l = .quit i ∨ l = .takeover i) ∧ Handover.Step l c.view u
  ends : d.view = u ∨ Handover.Step (.release i wake) u d.view ∧
    ∃ q, q.phase = .owning ∧ u.parties = c.view.parties.set i q
  failed : ∀ a ∈ d.failed, a.IsRelease → a ∈ c.failed ∨ ReleaseFails u i a

theorem Ends.turn {i : ℕ} {s : Subscription} {wake : Option ℕ} (hi : c.subs[i]? = some s)
    (hpc : s.pc.phase = .owning) (h : Ends i wake c.view c.failed d) : Turn i wake c.view c d where
  takes := .inl rfl
  ends := by
    refine h.view.imp_right fun hstep ↦ ⟨hstep, s.party, hpc, ?_⟩
    obtain ⟨hlt, hget⟩ := List.getElem?_eq_some_iff.mp (view_parties hi)
    rw [← hget, List.set_getElem_self]
  failed := h.failed

/-- The turn of a subscription that takes its channel. -/
theorem Ends.turn_of_taken {i : ℕ} {wake : Option ℕ} {l : Handover.Label ChannelMarketPair}
    {u : Handover.State ChannelMarketPair} {q : Party ChannelMarketPair}
    (hl : l = .enter i ∨ l = .takeover i) (htake : Handover.Step l c.view u)
    (hq : q.phase = .owning) (hu : u.parties = c.view.parties.set i q)
    (h : Ends i wake u c.failed d) : Turn i wake u c d where
  takes := .inr ⟨l, hl.imp_right .inr, htake⟩
  ends := h.view.imp_right fun hstep ↦ ⟨hstep, q, hq, hu⟩
  failed := h.failed

/-- The turn of a subscription that enters and waits, or quits its wait. -/
theorem turn_of_step {i : ℕ} {wake : Option ℕ} {l : Handover.Label ChannelMarketPair}
    (hl : l = .enter i ∨ l = .quit i ∨ l = .takeover i) (hstep : Handover.Step l c.view d.view)
    (hfailed : d.failed = c.failed) : Turn i wake d.view c d where
  takes := .inr ⟨l, hl, hstep⟩
  ends := .inl rfl
  failed _ ha _ := .inl (hfailed ▸ ha)

theorem enter_turn {i : ℕ} {s : Subscription} {wake : Option ℕ} (hi : c.subs[i]? = some s)
    (hpc : s.pc = .spawned) (h : c.enter i s wake = some d) : ∃ u, Turn i wake u c d := by
  have hparty := view_parties hi
  have hphase : s.party.phase = .outside := by
    rw [Subscription.party, hpc]
    rfl
  cases hlookup : c.channelStates.lookup s.topic with
  | none =>
    -- the two writes to the element, with interest 1 and then the flag, are one step
    have hslot := view_slots_none hlookup
    simp only [enter, locateChannel, hlookup, Bool.false_eq_true, if_false] at h
    have hi' : ({ c with nextNode := c.nextNode + 1 }.setChannel s.topic
        { node := c.nextNode, interest := 1 }).subs[i]? = some s := hi
    obtain ⟨cs, hcs, hends⟩ := acquire_ends hi' h
    rw [lookup_setChannel, Option.some_inj] at hcs
    subst hcs
    have hstep := Handover.Step.enterFresh hparty hphase hslot
    rw [ownedView, view_setChannel, Handover.State.setSlot_setSlot] at hends
    exact ⟨_, hends.turn_of_taken (.inl rfl) hstep rfl rfl⟩
  | some cs =>
    have hslot := view_slots hlookup
    simp only [enter, locateChannel, hlookup] at h
    by_cases hacq : cs.acquired = true
    · rw [if_pos hacq] at h
      split_ifs at h with hwake hstop
      -- the wait is entered with the stop latch up, or not
      all_goals
        rw [Option.some_inj] at h
        subst h
        refine ⟨_, turn_of_step (.inl rfl) ?_ rfl⟩
        rw [view_setSub, view_setChannel]
      · exact .enterBusy hparty hphase hslot hacq (.inr rfl)
      · exact .enterBusy hparty hphase hslot hacq (.inl rfl)
    · rw [if_neg hacq] at h
      have hfree : cs.slot.acquired = false := Bool.eq_false_iff.mpr hacq
      have hi' : (c.setChannel s.topic { cs with interest := cs.interest + 1 }).subs[i]? = some s :=
        hi
      obtain ⟨cs', hcs', hends⟩ := acquire_ends hi' h
      rw [lookup_setChannel, Option.some_inj] at hcs'
      subst hcs'
      have hstep := Handover.Step.enterFree hparty hphase hslot hfree
      rw [ownedView, view_setChannel, Handover.State.setSlot_setSlot] at hends
      exact ⟨_, hends.turn_of_taken (.inl rfl) hstep rfl rfl⟩

theorem resume_turn {i : ℕ} {wake : Option ℕ} (h : c.resume i wake = some d) :
    ∃ u, Turn i wake u c d := by
  obtain ⟨s, hi, ⟨hpc, h⟩ | ⟨hpc, rfl⟩ | ⟨hpc, h⟩ | ⟨hpc, h⟩ | ⟨hpc, h⟩⟩ := resume_cases h
  · exact enter_turn hi hpc h
  · refine ⟨_, turn_of_step (.inr (.inl rfl)) ?_ rfl⟩
    rw [view_setSub]
    refine .quit (view_parties hi) ?_
    rw [Subscription.party, hpc]
    rfl
  -- a wait that was completed without an exception: the flag is not looked at again
  · obtain ⟨cs, hcs, hends⟩ := acquire_ends hi h
    have hwoken : s.party.phase = .waiting .woken := by
      rw [Subscription.party, hpc]
      rfl
    have hstep := Handover.Step.takeover (view_parties hi) hwoken (view_slots hcs)
    exact ⟨_, hends.turn_of_taken (.inr rfl) hstep rfl rfl⟩
  · have hphase : s.pc.phase = .owning := by
      rw [hpc]
      rfl
    exact ⟨_, (closeMachine_ends hi hphase h).turn hi hphase⟩
  · have hphase : s.pc.phase = .owning := by
      rw [hpc]
      rfl
    exact ⟨_, (awaitClosed_ends hi hphase h).turn hi hphase⟩

theorem stop_steps {i : ℕ} (h : c.stop i = some d) :
    d.view = c.view ∨ Handover.Step (.stop i) c.view d.view := by
  obtain ⟨s, hi, ⟨hpc, rfl⟩ | rfl⟩ := stop_cases h
  · rw [view_setSub]
    refine .inr (.stop (view_parties hi) ?_)
    rw [Subscription.party, hpc]
    rfl
  · exact .inl (setSub_undisturbed (t := { s with stopLatch := true }) hi rfl).view_eq

theorem settle_steps {i : ℕ} (h : c.settle i = some d) :
    Handover.Step (.settle i) c.view d.view := by
  obtain ⟨s, hi, hpc, rfl⟩ := settle_cases h
  rw [view_setSub]
  refine .settle (view_parties hi) ?_
  rw [Subscription.party, hpc]
  rfl

/-! ## The steps of the connection -/

theorem notifyConnectionState_view (c : Connector) (s : ConnectionState)
    (order : List ChannelMarketPair) : (c.notifyConnectionState s order).view = c.view :=
  (notifyConnectionState_undisturbed c s order).view_eq

end Connector

open Connector in
/-- The connection does not take part in the hand-over. -/
theorem ConnectionMove.view_eq {args : Args} {a : Action} {c d : Connector}
    (h : ConnectionMove args c a d) : d.view = c.view := by
  cases h with
  | send payload => rfl
  | drop => exact (perform_undisturbed c .drop).view_eq
  | requestStop => rfl
  | stopped _ _ => rfl
  | connecting _ _ => rfl
  | badUrl _ _ => rfl
  | abandoned _ _ _ => exact notifyConnectionState_view (c.opened args _) .up _
  | announced _ _ _ => exact notifyConnectionState_view (c.opened args _) .up _
  | beginReader _ _ => rfl
  | @readMessage t msg _ _ => exact (handleMessage_undisturbed c msg).view_eq
  | readError _ _ _ => exact (broadcast_undisturbed c _ _).view_eq
  | writer _ _ _ => rfl
  | pinger _ _ _ => rfl
  | joined _ _ _ => exact notifyConnectionState_view c .down _
  | failed _ _ => rfl

/-! ## Every step is a path -/

/-- The label `l` may be taken in the state `s` during the action `a` that starts in `v`. -/
def Offers (v : Handover.State ChannelMarketPair) :
    Action → Handover.Label ChannelMarketPair → Handover.State ChannelMarketPair → Prop
  | .start topic, l, s => l = .join topic ∧ s = v
  | .stop i, l, s => l = .stop i ∧ s = v
  | .settle i, l, s => l = .settle i ∧ s = v
  | .resume i wake, l, s => ((l = .enter i ∨ l = .quit i ∨ l = .takeover i) ∧ s = v) ∨
      (l = .release i wake ∧ ∃ q, q.phase = .owning ∧ s.parties = v.parties.set i q)
  | _, _, _ => False

/-- A party that waits leaves or takes over when it is resumed. -/
theorem resume_of_offers {v s : Handover.State ChannelMarketPair} {a : Action} {i : ℕ}
    {l : Handover.Label ChannelMarketPair} (hl : l = .quit i ∨ l = .takeover i)
    (hoffers : Offers v a l s) : ∃ wake, a = .resume i wake ∧ s = v := by
  cases a with
  | resume i' wake =>
    rcases hoffers with ⟨hoffered, rfl⟩ | ⟨rfl, -⟩
    · have hii : i = i' := by
        rcases hl with rfl | rfl
        · simpa using hoffered
        · simpa using hoffered
      exact ⟨wake, hii ▸ rfl, rfl⟩
    · simp at hl
  | start topic =>
    obtain ⟨rfl, -⟩ := hoffers
    simp at hl
  | stop j =>
    obtain ⟨rfl, -⟩ := hoffers
    simp at hl
  | settle j =>
    obtain ⟨rfl, -⟩ := hoffers
    simp at hl
  | _ => exact hoffers.elim

theorem moves_of_offers {D : Handover.Label ChannelMarketPair →
    Handover.State ChannelMarketPair → Prop} {v : Handover.State ChannelMarketPair} {a : Action}
    (hD : ∀ l s t, Offers v a l s → Handover.Step l s t → D l s)
    {l : Handover.Label ChannelMarketPair} {s t : Handover.State ChannelMarketPair}
    (hoffers : Offers v a l s) (hstep : Handover.Step l s t) : Moves D s t :=
  ⟨l, hD l s t hoffers hstep, hstep⟩

theorem turn_takes {D : Handover.Label ChannelMarketPair →
    Handover.State ChannelMarketPair → Prop} {c d : Connector} {i : ℕ} {wake : Option ℕ}
    {u : Handover.State ChannelMarketPair}
    (hD : ∀ l s t, Offers c.view (.resume i wake) l s → Handover.Step l s t → D l s)
    (h : Connector.Turn i wake u c d) : Relation.ReflTransGen (Moves D) c.view u := by
  rcases h.takes with hu | ⟨l, hl, hstep⟩
  · rw [hu]
  · exact .single (moves_of_offers hD (.inl ⟨hl, rfl⟩) hstep)

theorem turn_ends {D : Handover.Label ChannelMarketPair →
    Handover.State ChannelMarketPair → Prop} {c d : Connector} {i : ℕ} {wake : Option ℕ}
    {u : Handover.State ChannelMarketPair}
    (hD : ∀ l s t, Offers c.view (.resume i wake) l s → Handover.Step l s t → D l s)
    (h : Connector.Turn i wake u c d) : Relation.ReflTransGen (Moves D) u d.view := by
  rcases h.ends with hd | ⟨hstep, q, hq, hu⟩
  · rw [hd]
  · exact .single (moves_of_offers hD (.inr ⟨rfl, q, hq, hu⟩) hstep)

/-- **Every step of the connector is a path of the hand-over protocol**, whose labels meet every
condition that the action guarantees. -/
theorem step_path {args : Args} {a : Action} {c d : Connector}
    {D : Handover.Label ChannelMarketPair → Handover.State ChannelMarketPair → Prop}
    (hD : ∀ l s t, Offers c.view a l s → Handover.Step l s t → D l s)
    (h : step args a c = some d) : Relation.ReflTransGen (Moves D) c.view d.view := by
  have hstays (hview : d.view = c.view) : Relation.ReflTransGen (Moves D) c.view d.view := by
    rw [hview]
  by_cases ha : a.IsConnection
  · exact hstays (connection_move ha h).view_eq
  cases a with
  | start topic =>
    rw [step, Option.some_inj] at h
    subst h
    refine .single ⟨.join topic, hD _ _ _ ⟨rfl, rfl⟩ (.join topic), ?_⟩
    have hstep := Handover.Step.join (s := c.view) topic
    have hview : Connector.view { c with subs := c.subs ++ [.new topic] }
        = { c.view with parties := c.view.parties ++ [⟨topic, 0, .outside⟩] } := by
      simp only [Connector.view, List.map_append]
      rfl
    rw [hview]
    exact hstep
  | stop i =>
    rcases Connector.stop_steps h with hview | hstep
    · exact hstays hview
    · exact .single (moves_of_offers hD ⟨rfl, rfl⟩ hstep)
  | settle i => exact .single (moves_of_offers hD ⟨rfl, rfl⟩ (Connector.settle_steps h))
  | resume i wake =>
    obtain ⟨u, hturn⟩ := Connector.resume_turn h
    exact (turn_takes hD hturn).trans (turn_ends hD hturn)
  | _ => exact absurd trivial ha

/-! ## Invariants of the protocol in the runs of the connector -/

theorem ConnectionMove.mem_failed {args : Args} {a : Action} {c d : Connector}
    (h : ConnectionMove args c a d) {x : Assertion} (hx : x.IsRelease) (hmem : x ∈ d.failed) :
    x ∈ c.failed := by
  have hannounce {e : Connector} {s : ConnectionState} {order : List ChannelMarketPair}
      (hmem : x ∈ (e.notifyConnectionState s order).failed) : x ∈ e.failed := by
    have hmem := (Connector.notifyConnectionState_undisturbed e s order).mem_failed_of_isRelease
      hx hmem
    rcases Connector.mem_failed_check hmem with hmem | ⟨rfl, -⟩
    · exact hmem
    · simp [Assertion.IsRelease] at hx
  cases h with
  | drop => exact (Connector.perform_undisturbed c .drop).mem_failed_of_isRelease hx hmem
  | @abandoned ok _ _ _ _ => exact hannounce (e := c.opened args ok) hmem
  | @announced ok _ _ _ _ => exact hannounce (e := c.opened args ok) hmem
  | readMessage _ _ =>
    exact (Connector.handleMessage_undisturbed c _).mem_failed_of_isRelease hx hmem
  | readError _ _ _ =>
    exact (Connector.broadcast_undisturbed c _ _).mem_failed_of_isRelease hx hmem
  | joined _ _ _ => exact hannounce hmem
  | _ => exact hmem

/-- An assert of `release_channel` that fails in a step fails on the way of the step's path. -/
theorem mem_failed_step {args : Args} {a : Action} {c d : Connector} (h : step args a c = some d)
    {x : Assertion} (hx : x.IsRelease) (hmem : x ∈ d.failed) :
    x ∈ c.failed ∨ ∃ i wake u, a = .resume i wake ∧ Connector.Turn i wake u c d ∧
      Connector.ReleaseFails u i x := by
  by_cases ha : a.IsConnection
  · exact .inl ((connection_move ha h).mem_failed hx hmem)
  cases a with
  | start topic =>
    rw [step, Option.some_inj] at h
    subst h
    exact .inl hmem
  | stop i =>
    obtain ⟨s, -, ⟨-, rfl⟩ | rfl⟩ := Connector.stop_cases h
    · exact .inl hmem
    · exact .inl hmem
  | settle i =>
    obtain ⟨s, -, -, rfl⟩ := Connector.settle_cases h
    exact .inl hmem
  | resume i wake =>
    obtain ⟨u, hturn⟩ := Connector.resume_turn h
    exact (hturn.failed x hmem hx).imp_right fun hfails ↦ ⟨i, wake, u, rfl, hturn, hfails⟩
  | _ => exact absurd trivial ha

/-- The run of the connector as a path of the protocol. -/
theorem run_path {args : Args} {C : Action → Connector → Prop}
    {D : Handover.Label ChannelMarketPair → Handover.State ChannelMarketPair → Prop}
    (hCD : ∀ a c, C a c → ∀ l s t, Offers c.view a l s → Handover.Step l s t → D l s)
    {actions : List Action} {c : Connector}
    (hC : Transition.Along (step args) C actions {}) (hrun : run args actions = some c) :
    Relation.ReflTransGen (Moves D) (Handover.initial ChannelMarketPair) c.view :=
  Transition.exec_simulation Connector.view
    (fun {a c _} hCa hstep ↦ step_path (hCD a c hCa) hstep) hC hrun

/-- **An invariant of the protocol's steps under `D` is one of the connector's runs under `C`**, and
the asserts of `release_channel` that it guards never fail. -/
theorem run_invariant {args : Args} {C : Action → Connector → Prop}
    {D : Handover.Label ChannelMarketPair → Handover.State ChannelMarketPair → Prop}
    {I : Handover.State ChannelMarketPair → Prop} {x : Assertion} (hx : x.IsRelease)
    (hinit : I (Handover.initial ChannelMarketPair))
    (hstep : ∀ {l s t}, I s → D l s → Handover.Step l s t → I t)
    (hguards : ∀ v i, I v → ¬Connector.ReleaseFails v i x)
    (hCD : ∀ a c, C a c → ∀ l s t, Offers c.view a l s → Handover.Step l s t → D l s)
    {actions : List Action} {c : Connector} (hC : Transition.Along (step args) C actions {})
    (hrun : run args actions = some c) : I c.view ∧ x ∉ c.failed := by
  have hfresh : I (Connector.view {}) ∧ x ∉ ({} : Connector).failed := ⟨hinit, List.not_mem_nil⟩
  refine Transition.exec_invariant_of_along C (fun c ↦ I c.view ∧ x ∉ c.failed) ?_ hfresh hC hrun
  rintro a c d ⟨hI, hsafe⟩ hCa h
  have hD := hCD a c hCa
  refine ⟨Handover.path_invariant hstep hI (step_path hD h), fun hmem ↦ ?_⟩
  -- the assert is evaluated in the middle of the turn, where the invariant holds as well
  rcases mem_failed_step h hx hmem with hmem | ⟨i, wake, u, rfl, hturn, hfails⟩
  · exact hsafe hmem
  · exact hguards u i (Handover.path_invariant hstep hI (turn_takes hD hturn)) hfails

end Ftx

end BoostConnector
