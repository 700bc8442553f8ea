import BoostConnector.Ftx.ChannelInterest
import BoostConnector.Ftx.SubscriptionMove

/-!
# No event reaches a closed subscription

`process_event` should not be called on a state machine that has been closed, and
`process_closed_event` asserts so. A subscription that waits for its machine to close keeps its
channel and its handler until `run` goes on, and nothing holds back the events in between. What goes
wrong is just that: no closed machine is given an event exactly when every frame, every read error
and every announcement finds the handlers it calls with machines that are not closed
(`sparesClosed_iff`).
-/

namespace BoostConnector

namespace Ftx

open Transition

/-! ## The property and the condition -/

namespace Connector

/-- No closed machine was given an event, and the assert that says so has not failed. -/
structure SparesClosed (c : Connector) : Prop where
  seen : ∀ s ∈ c.subs, ∀ x ∈ s.seen, x.1 ≠ .closed
  assert : .eventNotClosed ∉ c.failed

/-- The handler of the channel, if it is acquired, is that of a machine that is not closed. -/
def HeldOpen (c : Connector) (index : ChannelMarketPair) : Prop :=
  ∀ cs ∈ c.channelStates.lookup index, cs.acquired = true →
    ∀ i ∈ cs.onEvent, ∀ s ∈ c.subs[i]?, s.sm.state ≠ .closed

instance (c : Connector) (index : ChannelMarketPair) : Decidable (c.HeldOpen index) :=
  inferInstanceAs (Decidable (∀ cs ∈ c.channelStates.lookup index, cs.acquired = true →
    ∀ i ∈ cs.onEvent, ∀ s ∈ c.subs[i]?, s.sm.state ≠ .closed))

end Connector

/-- The channel a message is for. -/
def Message.index? : Message → Option ChannelMarketPair
  | .binary | .text none => none
  | .text (some jframe) =>
    match route jframe with
    | some (.channel index) => some index
    | some .pong | none => none

/-- The channels whose handlers a step of the connection calls. -/
def Action.told (c : Connector) : Action → List ChannelMarketPair
  | .readMessage msg => msg.index?.toList
  | .readError order | .connected _ order => order
  | .join order => if c.phase.tasks?.bind Tasks.joined = some .returned then order else []
  | _ => []

/-- The handlers that the step calls are those of machines that are not closed. -/
def TellsOpen (a : Action) (c : Connector) : Prop := ∀ index ∈ a.told c, c.HeldOpen index

instance (a : Action) (c : Connector) : Decidable (TellsOpen a c) :=
  inferInstanceAs (Decidable (∀ index ∈ a.told c, _))

theorem Pc.phase_ne_owning_of_isBefore {pc : Pc} (h : pc.isBefore = true) :
    pc.phase ≠ .owning := by
  cases pc <;> simp_all [isBefore, Pc.phase]

/-! ## What a machine does -/

namespace StateMachine

variable {sm : StateMachine}

theorem assertNotClosed_not_mem_handleInfo (o : Json.Members) :
    .assertNotClosed ∉ handleInfo o := by
  unfold handleInfo
  split
  · split_ifs <;> simp
  · exact List.not_mem_nil

/-- Only a closed machine fails its assert. -/
theorem assertNotClosed_not_mem (hstate : sm.state ≠ .closed) (e : ChannelEvent) :
    .assertNotClosed ∉ (sm.processEvent e).2 := by
  unfold processEvent
  cases h : sm.state with
  | down =>
    simp only [processDownEvent]
    split_ifs <;> simp
  | opening =>
    simp only [processOpeningEvent, enterClosingState]
    split_ifs <;> simp
  | «open» =>
    simp only [processOpenEvent, handlePartial, handleUpdate, handleError]
    split_ifs
    · simp
    · simp
    · split
      · split_ifs <;> simp [assertNotClosed_not_mem_handleInfo]
      · simp
  | closing =>
    simp only [processClosingEvent, handlePartial, handleUpdate, handleError]
    split_ifs
    · simp
    · simp
    · split
      · split_ifs <;> simp [assertNotClosed_not_mem_handleInfo]
      · simp
  | closed => exact absurd h hstate

theorem assertNotClosed_not_mem_close : .assertNotClosed ∉ sm.close.2 := by
  unfold close
  split_ifs
  · exact List.not_mem_nil
  · dsimp only
    split <;> simp [enterClosingState]

end StateMachine

namespace Connector

variable {c d : Connector}

theorem mem_failed_performAll {effects : List Effect}
    (h : .eventNotClosed ∈ (c.performAll effects).failed) :
    .eventNotClosed ∈ c.failed ∨ .assertNotClosed ∈ effects := by
  induction effects generalizing c with
  | nil => exact .inl h
  | cons e effects ih =>
    rcases ih h with h | h
    · cases e with
      | send payload => exact .inl h
      | drop =>
        refine .inl ?_
        simp only [perform, drop] at h
        split_ifs at h <;> exact h
      | assertUp =>
        refine .inl ((mem_failed_check h).resolve_right ?_)
        rintro ⟨heq, -⟩
        exact absurd heq (by decide)
      | assertNotClosed => exact .inr List.mem_cons_self
    · exact .inr (List.mem_cons_of_mem _ h)

/-! ## What the announcements do -/

theorem SparesClosed.congr (h : c.SparesClosed) (hsubs : d.subs = c.subs)
    (hfailed : .eventNotClosed ∈ d.failed → .eventNotClosed ∈ c.failed) : d.SparesClosed where
  seen := hsubs ▸ h.seen
  assert := mt hfailed h.assert

/-- The machine of the subscription is given an event, and makes its calls. -/
theorem sparesClosed_handle_iff (h : c.SparesClosed) {i : ℕ} {s : Subscription}
    (hi : c.subs[i]? = some s) (e : ChannelEvent) :
    (c.handle i e).SparesClosed ↔ s.sm.state ≠ .closed := by
  rw [handle_of_sub hi]
  constructor
  · intro hd
    refine hd.seen (s.given e) ?_ (s.sm.state, e) (by simp [Subscription.given])
    rw [performAll_subs]
    exact List.mem_of_getElem? (getElem?_setSub hi _)
  · intro hstate
    refine ⟨fun r hr x hx ↦ ?_, fun hfailed ↦ ?_⟩
    · rw [performAll_subs] at hr
      rcases List.mem_or_eq_of_mem_set hr with hr | rfl
      · exact h.seen r hr x hx
      · rcases List.mem_append.mp hx with hx | hx
        · exact h.seen s (List.mem_of_getElem? hi) x hx
        · rw [List.mem_singleton.mp hx]
          exact hstate
    · rcases mem_failed_performAll hfailed with hfailed | hmem
      · exact h.assert hfailed
      · exact StateMachine.assertNotClosed_not_mem hstate e hmem

/-- The handler of an acquired channel is that of a subscription to the channel, which has taken
it. -/
theorem exists_handler (h : Handover.Manned c.view) {index : ChannelMarketPair} {cs : ChannelState}
    (hlookup : c.channelStates.lookup index = some cs) (hacq : cs.acquired = true) :
    ∃ i s, cs.onEvent = some i ∧ c.subs[i]? = some s ∧ s.topic = index ∧
      s.pc.isBefore = false := by
  obtain ⟨i, howner, p, hp, htopic, howning⟩ := h index cs.slot (view_slots hlookup) hacq
  obtain ⟨s, hs, rfl⟩ := parties_view_eq_some hp
  refine ⟨i, s, howner, hs, htopic, Bool.eq_false_iff.mpr fun hbefore ↦ ?_⟩
  exact Pc.phase_ne_owning_of_isBefore hbefore howning

theorem tell_cases (h : Handover.Manned c.view) (e : ChannelEvent) (index : ChannelMarketPair) :
    (c.tell e index = c ∧ ∀ cs ∈ c.channelStates.lookup index, cs.acquired = false) ∨
      ∃ cs i s, c.channelStates.lookup index = some cs ∧ cs.acquired = true ∧
        cs.onEvent = some i ∧ c.subs[i]? = some s ∧ s.topic = index ∧ s.pc.isBefore = false ∧
        c.tell e index = c.handle i e := by
  unfold tell
  split
  · rename_i cs hlookup
    split_ifs with hacq
    · obtain ⟨i, s, howner, hs, htopic, hbefore⟩ := exists_handler h hlookup hacq
      exact .inr ⟨cs, i, s, hlookup, hacq, howner, hs, htopic, hbefore, by rw [howner]⟩
    · refine .inl ⟨rfl, fun cs' hcs' ↦ ?_⟩
      obtain rfl : cs = cs' := Option.some_inj.mp (hlookup.symm.trans hcs')
      exact Bool.eq_false_iff.mpr hacq
  · rename_i hlookup
    exact .inl ⟨rfl, fun cs hcs ↦ by simp [hlookup] at hcs⟩

theorem sparesClosed_tell_iff (h : c.SparesClosed) (hmanned : Handover.Manned c.view)
    (e : ChannelEvent) (index : ChannelMarketPair) :
    (c.tell e index).SparesClosed ↔ c.HeldOpen index := by
  rcases tell_cases hmanned e index with
    ⟨htell, hfree⟩ | ⟨cs, i, s, hlookup, hacq, howner, hs, -, -, htell⟩
  · rw [htell]
    refine iff_of_true h fun cs hcs hacq ↦ ?_
    exact absurd (hfree cs hcs) (by simp [hacq])
  · rw [htell, sparesClosed_handle_iff h hs]
    simp [HeldOpen, hlookup, hacq, howner, hs]

/-- Telling one channel leaves the machines behind the other channels alone. -/
theorem heldOpen_tell_iff (hmanned : Handover.Manned c.view) (e : ChannelEvent)
    {index k : ChannelMarketPair} (hk : k ≠ index) :
    (c.tell e index).HeldOpen k ↔ c.HeldOpen k := by
  rcases tell_cases hmanned e index with ⟨htell, -⟩ | ⟨cs, i, s, -, -, -, hs, htopic, -, htell⟩
  · rw [htell]
  · have hchannels := (handle_undisturbed c i e).channelStates
    have hsubs : (c.handle i e).subs = c.subs.set i (s.given e) := by
      rw [handle_of_sub hs, performAll_subs]
      rfl
    rw [htell, HeldOpen, HeldOpen, hchannels]
    refine forall₂_congr fun ks hks ↦ forall_congr' fun hacq ↦ forall₂_congr fun j hj ↦ ?_
    -- the handler of another channel belongs to another subscription
    have hij : i ≠ j := by
      rintro rfl
      obtain ⟨j, r, hj', hr, hrtopic, -⟩ := exists_handler hmanned hks hacq
      obtain rfl : j = i := Option.some_inj.mp (hj'.symm.trans hj)
      obtain rfl : r = s := Option.some_inj.mp (hr.symm.trans hs)
      exact hk (hrtopic.symm.trans htopic)
    rw [hsubs, List.getElem?_set_ne hij]

theorem failed_subset_performAll (c : Connector) (effects : List Effect) :
    c.failed ⊆ (c.performAll effects).failed := by
  induction effects generalizing c with
  | nil => exact List.Subset.refl _
  | cons e effects ih =>
    refine List.Subset.trans ?_ (ih (c.perform e))
    cases e with
    | send payload => exact List.Subset.refl _
    | drop =>
      simp only [perform, drop]
      split_ifs <;> exact List.Subset.refl _
    | assertUp =>
      simp only [perform, check]
      split_ifs
      · exact List.Subset.refl _
      · exact List.subset_append_left _ _
    | assertNotClosed => exact List.subset_append_left _ _

/-- A closed machine that was given an event stays on record. -/
theorem sparesClosed_of_tell (hmanned : Handover.Manned c.view) {e : ChannelEvent}
    {index : ChannelMarketPair} (h : (c.tell e index).SparesClosed) : c.SparesClosed := by
  rcases tell_cases hmanned e index with ⟨htell, -⟩ | ⟨cs, i, s, -, -, -, hs, -, -, htell⟩
  · rwa [htell] at h
  · rw [htell, handle_of_sub hs] at h
    refine ⟨fun r hr x hx ↦ ?_, fun hfailed ↦ h.assert (failed_subset_performAll _ _ hfailed)⟩
    obtain ⟨j, hj⟩ := List.getElem?_of_mem hr
    by_cases hij : i = j
    · subst hij
      obtain rfl : s = r := Option.some_inj.mp (hs.symm.trans hj)
      refine h.seen (s.given e) ?_ x (List.mem_append_left _ hx)
      rw [performAll_subs]
      exact List.mem_of_getElem? (getElem?_setSub hs _)
    · refine h.seen r ?_ x hx
      rw [performAll_subs]
      exact List.mem_of_getElem? ((List.getElem?_set_ne hij).trans hj)

theorem sparesClosed_of_broadcast {order : List ChannelMarketPair} {e : ChannelEvent}
    (hmanned : Handover.Manned c.view) (h : (c.broadcast order e).SparesClosed) :
    c.SparesClosed := by
  induction order generalizing c with
  | nil => exact h
  | cons index order ih =>
    refine sparesClosed_of_tell hmanned (ih ?_ h)
    rwa [(tell_undisturbed c e index).view_eq]

/-- The handlers are called one after the other, each of another subscription, so it is the state
before the first call that decides. -/
theorem sparesClosed_broadcast_iff {order : List ChannelMarketPair} (hnodup : order.Nodup)
    (e : ChannelEvent) (h : c.SparesClosed) (hmanned : Handover.Manned c.view) :
    (c.broadcast order e).SparesClosed ↔ ∀ index ∈ order, c.HeldOpen index := by
  induction order generalizing c with
  | nil => exact iff_of_true h (List.forall_mem_nil _)
  | cons index order ih =>
    obtain ⟨hnot, hnodup⟩ := List.nodup_cons.mp hnodup
    have hmanned' : Handover.Manned (c.tell e index).view := by
      rwa [(tell_undisturbed c e index).view_eq]
    have hrest (htell : (c.tell e index).SparesClosed) :
        (c.broadcast (index :: order) e).SparesClosed ↔ ∀ k ∈ order, c.HeldOpen k := by
      refine (ih hnodup htell hmanned').trans (forall₂_congr fun k hk ↦ ?_)
      exact heldOpen_tell_iff hmanned e (ne_of_mem_of_not_mem hk hnot)
    rw [List.forall_mem_cons]
    constructor
    · intro hbroadcast
      have htell : (c.tell e index).SparesClosed :=
        sparesClosed_of_broadcast hmanned' hbroadcast
      exact ⟨(sparesClosed_tell_iff h hmanned e index).mp htell, (hrest htell).mp hbroadcast⟩
    · rintro ⟨hopen, hothers⟩
      exact (hrest ((sparesClosed_tell_iff h hmanned e index).mpr hopen)).mpr hothers

/-! ## The steps of the connection -/

/-- The subscriptions, the channels and the failed asserts of closed machines are the same. -/
structure SameSubs (c d : Connector) : Prop where
  subs : d.subs = c.subs
  channelStates : d.channelStates = c.channelStates
  nextNode : d.nextNode = c.nextNode
  failed : .eventNotClosed ∈ d.failed ↔ .eventNotClosed ∈ c.failed

namespace SameSubs

theorem refl (c : Connector) : SameSubs c c := ⟨rfl, rfl, rfl, Iff.rfl⟩

theorem view_eq (h : SameSubs c d) : d.view = c.view := by
  simp only [view, h.subs, h.channelStates, h.nextNode]

theorem sparesClosed_congr (h : SameSubs c d) : d.SparesClosed ↔ c.SparesClosed :=
  ⟨fun hd ↦ hd.congr h.subs.symm h.failed.mpr, fun hc ↦ hc.congr h.subs h.failed.mp⟩

theorem heldOpen_iff (h : SameSubs c d) (index : ChannelMarketPair) :
    d.HeldOpen index ↔ c.HeldOpen index := by
  rw [HeldOpen, HeldOpen, h.subs, h.channelStates]

end SameSubs

theorem drop_sameSubs (c : Connector) : SameSubs c c.drop := by
  unfold drop
  split_ifs
  · exact ⟨rfl, rfl, rfl, Iff.rfl⟩
  · exact .refl c

theorem announce_sameSubs (c : Connector) (s : ConnectionState) : SameSubs c (c.announce s) := by
  refine ⟨rfl, rfl, rfl, fun h ↦ ?_, fun h ↦ ?_⟩
  · refine (mem_failed_check h).resolve_right ?_
    rintro ⟨heq, -⟩
    exact absurd heq (by decide)
  · simp only [announce, check]
    split_ifs
    · exact h
    · exact List.mem_append_left _ h

theorem opened_sameSubs (c : Connector) (args : Args) (ok : Bool) :
    SameSubs c ((c.opened args ok).announce .up) := by
  obtain ⟨hsubs, hchannels, hnext, hfailed⟩ := announce_sameSubs (c.opened args ok) .up
  exact ⟨hsubs, hchannels, hnext, hfailed⟩

theorem handleMessage_broadcast (c : Connector) (msg : Message) :
    ∃ e, SameSubs (c.broadcast msg.index?.toList e) (c.handleMessage msg) := by
  cases msg with
  | binary => exact ⟨.connectionDown, .refl c⟩
  | text jframe? =>
    cases jframe? with
    | none => exact ⟨.connectionDown, rfl, rfl, rfl, Iff.rfl⟩
    | some jframe =>
      cases hroute : route jframe with
      | none =>
        simp only [handleMessage, Message.index?, hroute]
        exact ⟨.connectionDown, rfl, rfl, rfl, Iff.rfl⟩
      | some r =>
        cases r with
        | pong =>
          simp only [handleMessage, Message.index?, hroute]
          exact ⟨.connectionDown, rfl, rfl, rfl, Iff.rfl⟩
        | channel index =>
          simp only [handleMessage, Message.index?, hroute]
          exact ⟨.response jframe, .refl _⟩

end Connector

open Connector in
/-- **A step of the connection tells the handlers of some channels**, each of them once, and leaves
the subscriptions and the channels alone otherwise. -/
theorem connection_broadcast {args : Args} {a : Action} {c d : Connector} (ha : a.IsConnection)
    (h : step args a c = some d) : (a.told c).Nodup ∧
      ∃ u e, SameSubs c u ∧ SameSubs (u.broadcast (a.told c) e) d := by
  have hnone (htold : a.told c = []) (hd : SameSubs c d) : (a.told c).Nodup ∧
      ∃ u e, SameSubs c u ∧ SameSubs (u.broadcast (a.told c) e) d := by
    rw [htold]
    exact ⟨List.nodup_nil, c, .connectionDown, .refl c, hd⟩
  cases connection_move ha h with
  | send payload => exact hnone rfl ⟨rfl, rfl, rfl, Iff.rfl⟩
  | drop => exact hnone rfl (drop_sameSubs c)
  | requestStop => exact hnone rfl ⟨rfl, rfl, rfl, Iff.rfl⟩
  | stopped hphase hstop => exact hnone rfl ⟨rfl, rfl, rfl, Iff.rfl⟩
  | connecting hphase hstop => exact hnone rfl ⟨rfl, rfl, rfl, Iff.rfl⟩
  | badUrl hphase hstop => exact hnone rfl ⟨rfl, rfl, rfl, Iff.rfl⟩
  | @abandoned ok order hphase hwalks hstop =>
    exact ⟨hwalks.nodup, (c.opened args ok).announce .up, .connectionUp, opened_sameSubs c args ok,
      rfl, rfl, rfl, Iff.rfl⟩
  | @announced ok order hphase hwalks hstop =>
    exact ⟨hwalks.nodup, (c.opened args ok).announce .up, .connectionUp, opened_sameSubs c args ok,
      rfl, rfl, rfl, Iff.rfl⟩
  | beginReader hphase ht => exact hnone rfl ⟨rfl, rfl, rfl, Iff.rfl⟩
  | @readMessage t msg hphase ht =>
    obtain ⟨e, he⟩ := handleMessage_broadcast c msg
    refine ⟨?_, c, e, .refl c, he.subs, he.channelStates, he.nextNode, he.failed⟩
    simp only [Action.told]
    cases msg.index? <;> simp
  | @readError t order hphase ht hwalks =>
    exact ⟨hwalks.nodup, c, .connectionDown, .refl c, rfl, rfl, rfl, Iff.rfl⟩
  | writer ha hphase ht =>
    refine hnone ?_ ⟨rfl, rfl, rfl, Iff.rfl⟩
    rcases ha with rfl | rfl | ⟨ok, rfl⟩ <;> rfl
  | pinger ha hphase ht =>
    refine hnone ?_ ⟨rfl, rfl, rfl, Iff.rfl⟩
    rcases ha with rfl | rfl | rfl | rfl <;> rfl
  | @joined t order hphase ht hwalks =>
    have htold : Action.told c (.join order) = order := by
      simp [Action.told, hphase, RunPhase.tasks?, ht]
    rw [htold]
    exact ⟨hwalks.nodup, c.announce .down, .connectionDown, announce_sameSubs c .down,
      rfl, rfl, rfl, Iff.rfl⟩
  | @failed t order hphase ht =>
    refine hnone ?_ ⟨rfl, rfl, rfl, Iff.rfl⟩
    simp [Action.told, hphase, RunPhase.tasks?, ht]

/-! ## The machines before they are given anything -/

namespace Connector

variable {c d : Connector}

/-- The machine of a subscription that has not taken its channel yet is down. -/
def Fresh (c : Connector) : Prop := ∀ s ∈ c.subs, s.pc.isBefore = true → s.sm.state = .down

theorem Fresh.setSub (h : Fresh c) {i : ℕ} {t : Subscription}
    (ht : t.pc.isBefore = true → t.sm.state = .down) : Fresh (c.setSub i t) := by
  intro r hr hpc
  rcases List.mem_or_eq_of_mem_set hr with hr | rfl
  · exact h r hr hpc
  · exact ht hpc

theorem Fresh.setSub_taken (h : Fresh c) {i : ℕ} {t : Subscription}
    (ht : t.pc.isBefore = false) : Fresh (c.setSub i t) :=
  h.setSub fun hpc ↦ absurd (ht.symm.trans hpc) (by decide)

theorem Fresh.of_subs (h : Fresh c) (hsubs : d.subs = c.subs) : Fresh d := by
  rw [Fresh, hsubs]
  exact h

theorem Fresh.handle (h : Fresh c) {i : ℕ} {s : Subscription} (hi : c.subs[i]? = some s)
    (hbefore : s.pc.isBefore = false) (e : ChannelEvent) : Fresh (c.handle i e) := by
  rw [handle_of_sub hi]
  exact Fresh.of_subs (h.setSub_taken (t := s.given e) hbefore) (performAll_subs _ _)

theorem Fresh.broadcast (h : Fresh c) (hmanned : Handover.Manned c.view)
    (order : List ChannelMarketPair) (e : ChannelEvent) : Fresh (c.broadcast order e) := by
  induction order generalizing c with
  | nil => exact h
  | cons index order ih =>
    refine ih (c := c.tell e index) ?_ ?_
    · rcases tell_cases hmanned e index with ⟨htell, -⟩ | ⟨cs, i, s, -, -, -, hs, -, hbefore, htell⟩
      · rwa [htell]
      · rw [htell]
        exact h.handle hs hbefore e
    · rwa [(tell_undisturbed c e index).view_eq]

end Connector

/-! ## The steps -/

namespace SubscriptionMove

variable {c d : Connector}

theorem fresh (h : SubscriptionMove c d) (hc : c.Fresh) : d.Fresh := by
  cases h with
  | start topic =>
    intro s hs hpc
    rcases List.mem_append.mp hs with hs | hs
    · exact hc s hs hpc
    · rw [List.mem_singleton.mp hs]
      rfl
  | locate index => exact hc.of_subs (Connector.subs_locateChannel c index)
  | @moveOn i s hi pc node stopLatch hbefore =>
    exact hc.setSub fun hpc ↦ hc s (List.mem_of_getElem? hi) (hbefore hpc)
  | take hi hbefore node cs hdown =>
    exact Connector.Fresh.setSub_taken (c := c.setChannel _ _) hc rfl
  | takeUp hi hbefore node cs hup =>
    refine Connector.Fresh.handle ?_ (Connector.getElem?_taken hi _ cs) rfl _
    exact Connector.Fresh.setSub_taken (c := c.setChannel _ _) hc rfl
  | close hi hpc =>
    exact Connector.Fresh.of_subs (hc.setSub_taken rfl) (Connector.performAll_subs _ _)
  | checkRelease cs => exact hc
  | unacquire index cs hcs => exact hc
  | erase index => exact hc

end SubscriptionMove

theorem Connector.SparesClosed.setSub {c : Connector} (h : c.SparesClosed) {i : ℕ}
    {s t : Subscription} (hi : c.subs[i]? = some s) (hseen : t.seen = s.seen) :
    (c.setSub i t).SparesClosed := by
  refine ⟨fun r hr x hx ↦ ?_, h.assert⟩
  rcases List.mem_or_eq_of_mem_set hr with hr | rfl
  · exact h.seen r hr x hx
  · exact h.seen s (List.mem_of_getElem? hi) x (hseen ▸ hx)

/-- The only event that a subscription gives itself is that the connection is up, when it takes its
channel. -/
theorem SubscriptionMove.sparesClosed {c d : Connector} (h : SubscriptionMove c d)
    (hfresh : c.Fresh)
    (hc : c.SparesClosed) : d.SparesClosed := by
  cases h with
  | start topic =>
    refine ⟨fun s hs x hx ↦ ?_, hc.assert⟩
    rcases List.mem_append.mp hs with hs | hs
    · exact hc.seen s hs x hx
    · rw [List.mem_singleton.mp hs] at hx
      exact absurd hx List.not_mem_nil
  | locate index =>
    refine hc.congr (Connector.subs_locateChannel c index) fun h ↦ ?_
    unfold Connector.locateChannel at h
    split at h <;> exact h
  | moveOn hi pc node stopLatch hbefore => exact hc.setSub hi rfl
  | @take i s hi hbefore node cs hdown =>
    have hset :
        (c.setChannel s.topic { cs with acquired := true, onEvent := some i }).SparesClosed :=
      hc.congr rfl id
    exact hset.setSub hi rfl
  | @takeUp i s hi hbefore node cs hup =>
    have hset :
        (c.setChannel s.topic { cs with acquired := true, onEvent := some i }).SparesClosed :=
      hc.congr rfl id
    have htaken : (c.taken i { s with node } cs).SparesClosed := hset.setSub hi rfl
    refine (Connector.sparesClosed_handle_iff htaken
      (Connector.getElem?_taken hi _ cs) _).mpr ?_
    rw [hfresh s (List.mem_of_getElem? hi) hbefore]
    decide
  | @close i s hi hpc =>
    have hset := hc.setSub (t := { s with sm := s.sm.close.1, pc := .awaitingClosed }) hi rfl
    refine hset.congr (Connector.performAll_subs _ _) fun hfailed ↦ ?_
    refine (Connector.mem_failed_performAll hfailed).resolve_right ?_
    exact StateMachine.assertNotClosed_not_mem_close
  | checkRelease cs =>
    refine hc.congr rfl fun hfailed ↦ ?_
    rcases Connector.mem_failed_checkRelease hfailed with hfailed | ⟨heq, -⟩ | ⟨heq, -⟩
    · exact hfailed
    · exact absurd heq (by decide)
    · exact absurd heq (by decide)
  | unacquire index cs hcs => exact hc.congr rfl id
  | erase index => exact hc.congr rfl id

/-- What holds in every state of a run besides: no machine was given anything before its
subscription took the channel, and every acquired channel has an owner. -/
structure Connector.Sound (c : Connector) : Prop where
  fresh : c.Fresh
  manned : Handover.Manned c.view

namespace Connector

variable {args : Args} {a : Action} {c d : Connector}

theorem sound_fresh : Sound {} where
  fresh _ h := absurd h List.not_mem_nil
  manned := Handover.manned_initial

theorem step_sound (hc : c.Sound) (h : step args a c = some d) : d.Sound where
  fresh := by
    by_cases ha : a.IsConnection
    · obtain ⟨-, u, e, hu, hd⟩ := connection_broadcast ha h
      refine Fresh.of_subs (Fresh.broadcast (hc.fresh.of_subs hu.subs) ?_ _ e) hd.subs
      rw [hu.view_eq]
      exact hc.manned
    · exact subscription_invariant (fun hc hmove ↦ hmove.fresh hc) ha hc.fresh h
  manned := Handover.path_invariant (D := fun _ _ ↦ True)
    (fun hI _ hstep ↦ Handover.step_manned hI hstep) hc.manned
    (step_path (fun _ _ _ _ _ ↦ trivial) h)

/-- **One step.** It spares the closed machines just when it tells none of them. -/
theorem sparesClosed_step_iff (hc : c.Sound) (hspares : c.SparesClosed)
    (h : step args a c = some d) : d.SparesClosed ↔ TellsOpen a c := by
  by_cases ha : a.IsConnection
  · obtain ⟨hnodup, u, e, hu, hd⟩ := connection_broadcast ha h
    have hmanned : Handover.Manned u.view := by
      rw [hu.view_eq]
      exact hc.manned
    rw [hd.sparesClosed_congr,
      sparesClosed_broadcast_iff hnodup e (hu.sparesClosed_congr.mpr hspares) hmanned]
    exact forall₂_congr fun index _ ↦ hu.heldOpen_iff index
  · have hboth : d.Fresh ∧ d.SparesClosed :=
      subscription_invariant (I := fun c ↦ c.Fresh ∧ c.SparesClosed)
        (fun hc hmove ↦ ⟨hmove.fresh hc.1, hmove.sparesClosed hc.1 hc.2⟩) ha ⟨hc.fresh, hspares⟩ h
    refine iff_of_true hboth.2 fun index hindex ↦ ?_
    cases a <;> first | exact absurd hindex List.not_mem_nil | exact absurd trivial ha

end Connector

/-- **No event reaches a closed subscription** in any state of a run exactly when every step finds
the handlers that it calls with machines that are not closed. -/
theorem sparesClosed_iff {args : Args} {actions : List Action} {c : Connector}
    (hrun : run args actions = some c) :
    (∀ before d, before <+: actions → run args before = some d → d.SparesClosed) ↔
      Along (step args) TellsOpen actions {} := by
  have hsound {before : List Action} {d : Connector} (hd : run args before = some d) : d.Sound :=
    exec_invariant Connector.Sound Connector.step_sound Connector.sound_fresh hd
  have hfresh : Connector.Sound {} ∧ Connector.SparesClosed {} :=
    ⟨Connector.sound_fresh, fun _ h ↦ absurd h List.not_mem_nil, List.not_mem_nil⟩
  rw [← forall_prefix_iff_along (I := fun d ↦ d.Sound ∧ d.SparesClosed) ?_ ?_ hfresh]
  · refine forall₄_congr fun before d hbefore hd ↦ ?_
    exact (and_iff_right (hsound hd)).symm
  · rintro a d d' ⟨hd, hspares⟩ hstep
    rw [and_iff_right (Connector.step_sound hd hstep)]
    exact Connector.sparesClosed_step_iff hd hspares hstep
  · rintro before a after t rfl hbefore hnone
    exact absurd hnone (step_ne_none_of_exec hrun hbefore)

/-- A response of the server on the channel. -/
def reply (index : ChannelMarketPair) (type : Bytes) : Message :=
  .text (some (.object [(ascii "type", .string type), (ascii "channel", .string index.channel),
    (ascii "market", .string index.market)]))

/-- A subscription is opened, closed and released. -/
def closeInTime : List Action :=
  [.reconnect, .connected true [], .beginReader, .start btcTrades, .resume 0 none,
    .readMessage (reply btcTrades (ascii "subscribed")), .stop 0, .resume 0 none,
    .readMessage (reply btcTrades (ascii "unsubscribed")), .resume 0 none,
    .readMessage (reply btcTrades (ascii "update"))]

theorem sparesClosed_closeInTime : (run {} closeInTime).isSome ∧
    ∀ before d, before <+: closeInTime → run {} before = some d → d.SparesClosed :=
  ⟨rfl, (@sparesClosed_iff {} closeInTime _ rfl).mpr (by decide)⟩

/-- The same, but one more frame arrives before `run` goes on. -/
def frameAfterUnsubscribed : List Action :=
  [.reconnect, .connected true [], .beginReader, .start btcTrades, .resume 0 none,
    .readMessage (reply btcTrades (ascii "subscribed")), .stop 0, .resume 0 none,
    .readMessage (reply btcTrades (ascii "unsubscribed")),
    .readMessage (reply btcTrades (ascii "update"))]

theorem frameAfterUnsubscribed_not_sparesClosed :
    ∃ c, run {} frameAfterUnsubscribed = some c ∧ c.failed = [.eventNotClosed] ∧
      ¬c.SparesClosed :=
  ⟨_, rfl, rfl, fun h ↦ h.assert (by decide)⟩

end Ftx

end BoostConnector
