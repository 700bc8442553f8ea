import BoostConnector.Ftx.SubscriptionMove
import BoostConnector.Transition.History

/-!
# Connection events of a subscription

What a subscription should be told about connections: between one `connection_up` and the next
exactly one `connection_down`. `Linked` relates what it was told to whether the reader of the
current connection is live, and `Told` says so of every subscription that a connector can tell
something. `Told` is an invariant of everything that subscriptions do and of the announcements.
-/

namespace BoostConnector

namespace Ftx

open History (AtEach SinceLast)

/-! ## One subscription -/

/-- Exactly one `connection_down` was given since the last `connection_up`, if there was one. -/
def OneDown (seen : List (StateType × ChannelEvent)) : Prop :=
  (∀ x ∈ seen, x.2.isUp = false) ∨
    ∃ since, SinceLast (fun x ↦ x.2.isUp = true) seen since ∧ since.countP (·.2.isDown) = 1

/-- No `connection_down` was given since the last `connection_up`. -/
def NoDown (seen : List (StateType × ChannelEvent)) : Prop :=
  ∃ since, SinceLast (fun x ↦ x.2.isUp = true) seen since ∧ since.countP (·.2.isDown) = 0

namespace Subscription

variable {s : Subscription} {e : ChannelEvent} {live : Bool}

/-- Every `connection_up` found exactly one `connection_down` since the one before it, and a state
machine that was not opening, open or closing. -/
def SeesOnce (s : Subscription) : Prop :=
  AtEach (fun past x ↦ x.2.isUp = true → (x.1 = .down ∨ x.1 = .closed) ∧ OneDown past) s.seen

/-- The subscription has been told that the connection is up exactly if it is live. -/
structure Linked (s : Subscription) (live : Bool) : Prop where
  since : if live = true then NoDown s.seen else OneDown s.seen
  state : live = false → s.sm.state = .down ∨ s.sm.state = .closed

theorem seesOnce_of_seen_eq_nil (h : s.seen = []) : s.SeesOnce := by
  rw [SeesOnce, h]
  exact History.atEach_nil _

theorem linked_of_seen_eq_nil (h : s.seen = []) (hstate : s.sm.state = .down) : s.Linked false where
  since := by
    rw [if_neg (by decide), h]
    exact .inl fun x hx ↦ absurd hx List.not_mem_nil
  state _ := .inl hstate

theorem SeesOnce.given_of_not_isUp (h : s.SeesOnce) (hup : e.isUp = false) :
    (s.given e).SeesOnce := by
  rw [SeesOnce, given, History.atEach_concat]
  refine ⟨h, fun hup' ↦ ?_⟩
  rw [hup] at hup'
  exact Bool.noConfusion hup'

theorem SeesOnce.given_up (h : s.SeesOnce) (hlinked : s.Linked false) :
    (s.given .connectionUp).SeesOnce := by
  rw [SeesOnce, given, History.atEach_concat]
  refine ⟨h, fun _ ↦ ⟨hlinked.state rfl, ?_⟩⟩
  have hsince := hlinked.since
  rwa [if_neg (by decide)] at hsince

theorem linked_given_up (s : Subscription) : (s.given .connectionUp).Linked true where
  since := by
    rw [if_pos rfl]
    exact ⟨[], History.sinceLast_concat_self rfl, rfl⟩
  state h := absurd h (by decide)

theorem state_processEvent_down (sm : StateMachine) :
    (sm.processEvent .connectionDown).1.state = .down ∨
      (sm.processEvent .connectionDown).1.state = .closed := by
  unfold StateMachine.processEvent
  cases hstate : sm.state with
  | down => exact .inl hstate
  | opening => exact .inl rfl
  | «open» => exact .inl rfl
  | closing => exact .inr rfl
  | closed => exact .inr hstate

theorem Linked.given_down (h : s.Linked true) : (s.given .connectionDown).Linked false where
  since := by
    have hsince := h.since
    rw [if_pos rfl] at hsince
    obtain ⟨since, hlast, hcount⟩ := hsince
    rw [if_neg (by decide)]
    have hnot : ¬(fun x : StateType × ChannelEvent ↦ x.2.isUp = true)
        (s.sm.state, .connectionDown) := by
      simp [ChannelEvent.isUp]
    refine .inr ⟨_, hlast.concat hnot, ?_⟩
    rw [List.countP_append, hcount]
    rfl
  state _ := state_processEvent_down s.sm

/-- Nothing but `connection_up` leads out of `down`, and nothing out of `closed`. -/
theorem state_processEvent_of_not_isUp {sm : StateMachine} (hup : e.isUp = false)
    (h : sm.state = .down ∨ sm.state = .closed) :
    (sm.processEvent e).1.state = .down ∨ (sm.processEvent e).1.state = .closed := by
  unfold StateMachine.processEvent
  rcases h with h | h
  · rw [h]
    simp only [StateMachine.processDownEvent, hup, Bool.false_eq_true, if_false]
    exact .inl h
  · rw [h]
    exact .inr h

/-- An event that is not about the connection changes nothing. -/
theorem Linked.given_other (h : s.Linked live) (hup : e.isUp = false) (hdown : e.isDown = false) :
    (s.given e).Linked live where
  since := by
    have hnot : ¬(fun x : StateType × ChannelEvent ↦ x.2.isUp = true) (s.sm.state, e) := by
      simp [hup]
    have hcount (since : List (StateType × ChannelEvent)) :
        (since ++ [(s.sm.state, e)]).countP (·.2.isDown) = since.countP (·.2.isDown) := by
      simp [hdown]
    cases live with
    | true =>
      obtain ⟨since, hlast, hzero⟩ := h.since
      exact ⟨_, hlast.concat hnot, (hcount since).trans hzero⟩
    | false =>
      rcases h.since with hnone | ⟨since, hlast, hone⟩
      · refine .inl fun x hx ↦ ?_
        rcases List.mem_append.mp hx with hx | hx
        · exact hnone x hx
        · rw [List.mem_singleton.mp hx]
          exact hup
      · exact .inr ⟨_, hlast.concat hnot, (hcount since).trans hone⟩
  state hlive := state_processEvent_of_not_isUp hup (h.state hlive)

theorem state_close {sm : StateMachine} (h : sm.state = .down ∨ sm.state = .closed) :
    sm.close.1.state = .down ∨ sm.close.1.state = .closed := by
  unfold StateMachine.close
  split_ifs
  · exact h
  · rcases h with h | h
    · simp [h, StateMachine.enterClosedState]
    · simp [h]

end Subscription

/-! ## All subscriptions -/

namespace Connector

/-- What the subscriptions have been told. Whether the connection of a channel is live is a function
of the channel, as an announcement reaches one after the other; `may` says that another connection
may be announced. -/
structure Told (c : Connector) (live : ChannelMarketPair → Bool) (may : Bool) : Prop where
  once : ∀ s ∈ c.subs, s.SeesOnce
  fresh : ∀ s ∈ c.subs, s.pc.isBefore = true → s.seen = [] ∧ s.sm.state = .down
  handler : ∀ index cs i, c.channelStates.lookup index = some cs → cs.acquired = true →
    cs.onEvent = some i → ∃ s, c.subs[i]? = some s ∧ s.topic = index ∧ s.pc.isBefore = false ∧
      (may = true → s.Linked (live index))

variable {c d : Connector} {live live' : ChannelMarketPair → Bool} {may may' : Bool}

theorem told_fresh : Told {} live may where
  once _ h := absurd h List.not_mem_nil
  fresh _ h := absurd h List.not_mem_nil
  handler index cs i h := by
    have hnone : AList.lookup index (∅ : AList (fun _ : ChannelMarketPair ↦ ChannelState)) = none :=
      rfl
    rw [hnone] at h
    simp at h

theorem Told.congr (h : Told c live may) (hsubs : d.subs = c.subs)
    (hchannels : d.channelStates = c.channelStates) : Told d live may where
  once := hsubs ▸ h.once
  fresh := hsubs ▸ h.fresh
  handler := by
    rw [hsubs, hchannels]
    exact h.handler

/-- What is told of the channels that are there is all that matters. -/
theorem Told.weaken (h : Told c live may) (hmay : may' = true → may = true)
    (hlive : may' = true → ∀ index cs, c.channelStates.lookup index = some cs →
      cs.acquired = true → live' index = live index) : Told c live' may' where
  once := h.once
  fresh := h.fresh
  handler index cs i hlookup hacq hi := by
    obtain ⟨s, hs, htopic, hbefore, hlinked⟩ := h.handler index cs i hlookup hacq hi
    refine ⟨s, hs, htopic, hbefore, fun hm ↦ ?_⟩
    rw [hlive hm index cs hlookup hacq]
    exact hlinked (hmay hm)

/-- A subscription moves on without being told anything. -/
theorem Told.setSub (h : Told c live may) {i : ℕ} {s t : Subscription} (hi : c.subs[i]? = some s)
    (htopic : t.topic = s.topic) (hseen : t.seen = s.seen)
    (hstate : s.sm.state = .down ∨ s.sm.state = .closed →
      t.sm.state = .down ∨ t.sm.state = .closed)
    (hbefore : t.pc.isBefore = true → s.pc.isBefore = true ∧ t.sm = s.sm) :
    Told (c.setSub i t) live may where
  once r hr := by
    rcases List.mem_or_eq_of_mem_set hr with hr | rfl
    · exact h.once r hr
    · rw [Subscription.SeesOnce, hseen]
      exact h.once s (List.mem_of_getElem? hi)
  fresh r hr hpc := by
    rcases List.mem_or_eq_of_mem_set hr with hr | rfl
    · exact h.fresh r hr hpc
    · obtain ⟨hs, hsm⟩ := hbefore hpc
      rw [hseen, hsm]
      exact h.fresh s (List.mem_of_getElem? hi) hs
  handler index cs j hlookup hacq hj := by
    obtain ⟨r, hr, hrtopic, hrbefore, hlinked⟩ := h.handler index cs j hlookup hacq hj
    by_cases hij : i = j
    · subst hij
      rw [hi, Option.some_inj] at hr
      subst hr
      obtain ⟨hlt, -⟩ := List.getElem?_eq_some_iff.mp hi
      refine ⟨t, List.getElem?_set_self hlt, htopic.trans hrtopic, ?_, fun hm ↦ ?_⟩
      · rw [Bool.eq_false_iff]
        intro ht
        rw [(hbefore ht).1] at hrbefore
        exact Bool.noConfusion hrbefore
      · refine ⟨?_, fun hl ↦ hstate ((hlinked hm).state hl)⟩
        rw [hseen]
        exact (hlinked hm).since
    · refine ⟨r, ?_, hrtopic, hrbefore, hlinked⟩
      rw [Connector.setSub, List.getElem?_set_ne hij]
      exact hr

theorem Told.start (h : Told c live may) (topic : ChannelMarketPair) :
    Told { c with subs := c.subs ++ [.new topic] } live may where
  once s hs := by
    rcases List.mem_append.mp hs with hs | hs
    · exact h.once s hs
    · rw [List.mem_singleton.mp hs]
      exact Subscription.seesOnce_of_seen_eq_nil rfl
  fresh s hs hpc := by
    rcases List.mem_append.mp hs with hs | hs
    · exact h.fresh s hs hpc
    · rw [List.mem_singleton.mp hs]
      exact ⟨rfl, rfl⟩
  handler index cs i hlookup hacq hi := by
    obtain ⟨s, hs, htopic, hbefore, hlinked⟩ := h.handler index cs i hlookup hacq hi
    obtain ⟨hlt, -⟩ := List.getElem?_eq_some_iff.mp hs
    exact ⟨s, (List.getElem?_append_left hlt).trans hs, htopic, hbefore, hlinked⟩

/-- A channel changes, but not who is told of it. -/
theorem Told.setChannel (h : Told c live may) (index : ChannelMarketPair) (cs : ChannelState)
    (hcs : cs.acquired = true → ∃ cs', c.channelStates.lookup index = some cs' ∧
      cs'.acquired = true ∧ cs'.onEvent = cs.onEvent) : Told (c.setChannel index cs) live may where
  once := h.once
  fresh := h.fresh
  handler k ks i hlookup hacq hi := by
    by_cases hk : k = index
    · subst hk
      rw [Connector.setChannel, AList.lookup_insert, Option.some_inj] at hlookup
      subst hlookup
      obtain ⟨cs', hlookup', hacq', hsame⟩ := hcs hacq
      exact h.handler k cs' i hlookup' hacq' (hsame.trans hi)
    · rw [Connector.setChannel, AList.lookup_insert_ne hk] at hlookup
      exact h.handler k ks i hlookup hacq hi

theorem Told.erase (h : Told c live may) (index : ChannelMarketPair) :
    Told { c with channelStates := c.channelStates.erase index } live may where
  once := h.once
  fresh := h.fresh
  handler k ks i hlookup hacq hi := by
    by_cases hk : k = index
    · subst hk
      rw [AList.lookup_erase] at hlookup
      simp at hlookup
    · rw [AList.lookup_erase_ne hk] at hlookup
      exact h.handler k ks i hlookup hacq hi

theorem Told.undisturbed (h : Told c live may) (hd : Undisturbed c d) (hsubs : d.subs = c.subs) :
    Told d live may := h.congr hsubs hd.channelStates

/-! ## Announcements -/

/-- One handler is told: its channel is live or not as the event says. -/
theorem Told.tell (h : Told c live may) (e : ChannelEvent) (index : ChannelMarketPair) {b : Bool}
    (hgive : ∀ s : Subscription, s.SeesOnce → (may = true → s.Linked (live index)) →
      (s.given e).SeesOnce ∧ (may = true → (s.given e).Linked b)) :
    Told (c.tell e index) (Function.update live index b) may := by
  have hskip (hnone : ∀ cs i, c.channelStates.lookup index = some cs → cs.acquired = true →
      cs.onEvent ≠ some i) : Told c (Function.update live index b) may := by
    refine ⟨h.once, h.fresh, fun k cs i hlookup hacq hi ↦ ?_⟩
    have hk : k ≠ index := by
      rintro rfl
      exact hnone cs i hlookup hacq hi
    rw [Function.update_of_ne hk]
    exact h.handler k cs i hlookup hacq hi
  unfold Connector.tell
  split
  · rename_i cs hlookup
    split_ifs with hacq
    · split
      · rename_i i hi
        obtain ⟨s, hs, htopic, hbefore, hlinked⟩ := h.handler index cs i hlookup hacq hi
        obtain ⟨honce, hlink⟩ := hgive s (h.once s (List.mem_of_getElem? hs)) hlinked
        have hsubs : (c.handle i e).subs = c.subs.set i (s.given e) := by
          rw [handle_of_sub hs, performAll_subs]
          rfl
        have hchannels := (handle_undisturbed c i e).channelStates
        obtain ⟨hlt, -⟩ := List.getElem?_eq_some_iff.mp hs
        refine ⟨fun r hr ↦ ?_, fun r hr hpc ↦ ?_, fun k ks j hk hks hj ↦ ?_⟩
        · rw [hsubs] at hr
          rcases List.mem_or_eq_of_mem_set hr with hr | rfl
          · exact h.once r hr
          · exact honce
        · rw [hsubs] at hr
          rcases List.mem_or_eq_of_mem_set hr with hr | rfl
          · exact h.fresh r hr hpc
          · exact absurd (hbefore.symm.trans hpc) (by decide)
        · rw [hchannels] at hk
          obtain ⟨r, hr, hrtopic, hrbefore, hrlinked⟩ := h.handler k ks j hk hks hj
          rw [hsubs]
          by_cases hij : i = j
          · subst hij
            rw [hs, Option.some_inj] at hr
            subst hr
            have hkey : k = index := hrtopic.symm.trans htopic
            rw [hkey, Function.update_self]
            exact ⟨_, List.getElem?_set_self hlt, htopic, hbefore, hlink⟩
          · rw [List.getElem?_set_ne hij]
            have hkey : k ≠ index := by
              rintro rfl
              rw [hlookup, Option.some_inj] at hk
              rw [← hk, hi, Option.some_inj] at hj
              exact hij hj
            rw [Function.update_of_ne hkey]
            exact ⟨r, hr, hrtopic, hrbefore, hrlinked⟩
      · rename_i hi
        refine hskip fun cs' i' hlookup' _ hi' ↦ ?_
        rw [hlookup, Option.some_inj] at hlookup'
        rw [← hlookup', hi] at hi'
        simp at hi'
    · refine hskip fun cs' i' hlookup' hacq' _ ↦ ?_
      rw [hlookup, Option.some_inj] at hlookup'
      exact hacq (hlookup' ▸ hacq')
  · rename_i hlookup
    refine hskip fun cs' i' hlookup' _ _ ↦ ?_
    rw [hlookup] at hlookup'
    simp at hlookup'

/-- All handlers are told, each of them once. -/
theorem Told.broadcast {e : ChannelEvent} {a b : Bool} {order : List ChannelMarketPair}
    (hnodup : order.Nodup)
    (hgive : ∀ s : Subscription, s.SeesOnce → (may = true → s.Linked a) →
      (s.given e).SeesOnce ∧ (may = true → (s.given e).Linked b))
    (h : Told c live may) (ha : ∀ index ∈ order, live index = a) :
    Told (c.broadcast order e) (fun index ↦ if index ∈ order then b else live index) may := by
  induction order generalizing c live with
  | nil => simpa [Connector.broadcast] using h
  | cons index order ih =>
    obtain ⟨hnot, hnodup⟩ := List.nodup_cons.mp hnodup
    have hfirst := h.tell e index (b := b) (by
      rw [ha index List.mem_cons_self]
      exact hgive)
    have hrest := ih hnodup hfirst fun k hk ↦ by
      rw [Function.update_of_ne (ne_of_mem_of_not_mem hk hnot)]
      exact ha k (List.mem_cons_of_mem _ hk)
    refine hrest.weaken id fun _ k _ _ _ ↦ ?_
    by_cases hk : k = index
    · subst hk
      rw [if_pos List.mem_cons_self, if_neg hnot, Function.update_self]
    · rw [Function.update_of_ne hk]
      simp only [List.mem_cons, hk, false_or]

/-- An announcement to all the handlers of the map. -/
theorem Told.announce {e : ChannelEvent} {a b : Bool} {order : List ChannelMarketPair}
    (hwalks : c.Walks order)
    (hgive : ∀ s : Subscription, s.SeesOnce → (may = true → s.Linked a) →
      (s.given e).SeesOnce ∧ (may = true → (s.given e).Linked b))
    (h : Told c (fun _ ↦ a) may) : Told (c.broadcast order e) (fun _ ↦ b) may := by
  refine (h.broadcast hwalks.nodup hgive fun _ _ ↦ rfl).weaken id fun _ index cs hlookup _ ↦ ?_
  rw [(broadcast_undisturbed c order e).channelStates] at hlookup
  rw [if_pos (hwalks.mem hlookup)]

end Connector

end Ftx

end BoostConnector
