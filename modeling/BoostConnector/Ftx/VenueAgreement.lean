import BoostConnector.Ftx.ClosedSubscription
import BoostConnector.Ftx.VenueTalk

/-!
# The connector and its venue agree

`Conversing` says of all subscriptions that their machines converse with the venue, on the channels
that they own, as long as the connection is read. Nobody has anything to do with the venue on a
channel that is free, or on any channel while a connection is being opened; that is where the owners
of the channels (`Handover.Exclusive`) and what they were told of earlier connections (`Told`) come
in. From there each step of the connector and of the venue keeps the agreement (`step_agreed`).
-/

namespace BoostConnector

namespace Ftx

open Conversation (Agrees Phase Reply Request Talk)

open Transition

/-! ## Subscriptions -/

/-- Whether `run` has called `close()`, unless it is over. -/
def Pc.hasClosed? : Pc → Option Bool
  | spawned | waiting _ | awaitingStop => some false
  | awaitingClosed => some true
  | left => none

namespace Subscription

/-- What holds of every subscription: its machine is on its channel, is closed just if its latch is
set, has been asked to close if `run` has done so, has nothing to do with the venue unless the
subscription owns the channel, and is not down after the last `connection_up` unless it was given a
`connection_down`; and every message it was given was expected. -/
structure Sane (s : Subscription) : Prop where
  topic : s.sm.topic = s.topic
  latch : s.sm.closedLatch = true ↔ s.sm.state = .closed
  heeds : s.sm.Heeds
  asked : ∀ b ∈ s.pc.hasClosed?, s.sm.closeRequested = b
  idle : s.pc.isOwner = false → s.sm.state.phase? = none
  up : NoDown s.seen → s.sm.state ≠ .down
  expected : ∀ x ∈ s.seen, Expected x

variable {s : Subscription}

theorem sane_new (topic : ChannelMarketPair) : (new topic).Sane where
  topic := rfl
  latch := by simp [new]
  heeds := ⟨by simp [new], by simp [new]⟩
  asked b hb := Option.some_inj.mp hb
  idle _ := rfl
  up := by
    rintro ⟨since, ⟨before, x, h, -⟩, -⟩
    simp [new] at h
  expected _ hx := absurd hx List.not_mem_nil

theorem Sane.given (h : s.Sane) {e : ChannelEvent} (howner : s.pc.isOwner = true)
    (he : Expected (s.sm.state, e)) : (s.given e).Sane where
  topic := (s.sm.topic_feed (.event e)).trans h.topic
  latch := StateMachine.closedLatch_feed h.latch (.event e)
  heeds := h.heeds.feed (.event e)
  asked b hb := (s.sm.closeRequested_processEvent e).trans (h.asked b hb)
  idle hidle := absurd (howner.symm.trans hidle) (by decide)
  up := by
    rintro ⟨since, hlast, hcount⟩
    -- either this event is the last `connection_up`, or it was seen before
    by_cases hup : e.isUp = true
    · exact StateMachine.state_processEvent_ne_down (.inl hup)
        (by cases e <;> simp [ChannelEvent.isUp, ChannelEvent.isDown] at hup ⊢)
    · obtain ⟨r, rfl, hr⟩ := hlast.of_concat hup
      rw [List.countP_append, Nat.add_eq_zero_iff] at hcount
      refine StateMachine.state_processEvent_ne_down (.inr (h.up ⟨r, hr, hcount.1⟩)) ?_
      simpa using hcount.2
  expected x hx := by
    rcases List.mem_append.mp hx with hx | hx
    · exact h.expected x hx
    · rw [List.mem_singleton.mp hx]
      exact he

theorem Sane.close (h : s.Sane) : Sane { s with sm := s.sm.close.1, pc := .awaitingClosed } where
  topic := (s.sm.topic_feed .close).trans h.topic
  latch := StateMachine.closedLatch_feed h.latch .close
  heeds := h.heeds.feed .close
  asked b hb := s.sm.closeRequested_close.trans (Option.some_inj.mp hb)
  idle hidle := by simp [Pc.isOwner] at hidle
  up hup := StateMachine.state_close_ne_down (h.up hup)
  expected := h.expected

/-- The subscription goes to another place of its `run`. -/
theorem Sane.moveOn (h : s.Sane) (pc : Pc) (node : ℕ) (stopLatch : Bool)
    (hclosed : ∀ b ∈ pc.hasClosed?, b ∈ s.pc.hasClosed?)
    (hidle : pc.isOwner = false → s.sm.state.phase? = none) :
    Sane { s with pc, node, stopLatch } where
  topic := h.topic
  latch := h.latch
  heeds := h.heeds
  asked b hb := h.asked b (hclosed b hb)
  idle := hidle
  up := h.up
  expected := h.expected

end Subscription

theorem expected_of_not_isResponse {state : StateType} {e : ChannelEvent}
    (he : e.isResponse = false) : Expected (state, e) :=
  fun hresponse ↦ absurd (he.symm.trans hresponse) (by decide)

theorem Pc.hasClosed?_wake (pc : Pc) : pc.wake.hasClosed? = pc.hasClosed? := by
  rcases pc with _ | (_ | _ | _ | _) | _ | _ | _ <;> rfl

theorem Pc.isOwner_wake (pc : Pc) : pc.wake.isOwner = pc.isOwner := by
  rcases pc with _ | (_ | _ | _ | _) | _ | _ | _ <;> rfl

/-! ## The connector -/

namespace Connector

variable {c d : Connector}

def machines (c : Connector) : List StateMachine := c.subs.map (·.sm)

theorem machines_getElem? {i : ℕ} {s : Subscription} (hi : c.subs[i]? = some s) :
    c.machines[i]? = some s.sm := by
  rw [machines, List.getElem?_map, hi]
  rfl

theorem machines_setSub (c : Connector) (i : ℕ) (s : Subscription) :
    (c.setSub i s).machines = c.machines.set i s.sm := List.map_set

theorem machines_setSub_of_eq {i : ℕ} {s t : Subscription} (hi : c.subs[i]? = some s)
    (hsm : t.sm = s.sm) : (c.setSub i t).machines = c.machines := by
  obtain ⟨hlt, hget⟩ := List.getElem?_eq_some_iff.mp (machines_getElem? hi)
  rw [machines_setSub, hsm, ← hget, List.set_getElem_self]

/-- All subscriptions are sane, and while the connection is live the conversations of their machines
agree with the venue, of which the frames `sent` were not taken yet. -/
structure Conversing (live : Bool) (sent : List Frame) (v : Venue) (c : Connector) : Prop where
  sane : ∀ s ∈ c.subs, s.Sane
  converses : live = true → Converses c.machines (sent ++ c.writeQueue) v

namespace Conversing

variable {live : Bool} {sent : List Frame} {v : Venue} {i : ℕ} {s t : Subscription}
  {jframe : Json.Value} {outbox : List Json.Value}

theorem congr (h : Conversing live sent v c) (hsubs : d.subs = c.subs)
    (hqueue : d.writeQueue = c.writeQueue) : Conversing live sent v d where
  sane := hsubs ▸ h.sane
  converses hlive := by
    rw [machines, hsubs, hqueue]
    exact h.converses hlive

theorem sane_setSub (h : ∀ s ∈ c.subs, s.Sane) (ht : t.Sane) :
    ∀ s ∈ (c.setSub i t).subs, s.Sane := by
  intro r hr
  rcases List.mem_or_eq_of_mem_set hr with hr | rfl
  · exact h r hr
  · exact ht

/-- A subscription goes on with the machine that it has. -/
theorem setSub (h : Conversing live sent v c) (hi : c.subs[i]? = some s) (ht : t.Sane)
    (hsm : t.sm = s.sm) : Conversing live sent v (c.setSub i t) where
  sane := sane_setSub h.sane ht
  converses hlive := by
    rw [machines_setSub_of_eq hi hsm]
    exact h.converses hlive

/-- The machine of a subscription is fed, and makes its calls. -/
theorem feed (h : Conversing live sent v c) {v' : Venue} (ht : t.Sane) {effects : List Effect}
    (hconverses : live = true → Converses (c.machines.set i t.sm)
      (sent ++ c.writeQueue ++ effects.filterMap Effect.frame?) v') :
    Conversing live sent v' ((c.setSub i t).performAll effects) where
  sane := by
    rw [performAll_subs]
    exact sane_setSub h.sane ht
  converses hlive := by
    rw [writeQueue_performAll, machines, performAll_subs, ← machines, machines_setSub,
      ← List.append_assoc]
    exact hconverses hlive

theorem handle (h : Conversing live sent v c) (hi : c.subs[i]? = some s) {e : ChannelEvent}
    {v' : Venue} (howner : s.pc.isOwner = true) (he : Expected (s.sm.state, e))
    (hconverses : live = true → Converses (c.machines.set i (s.sm.processEvent e).1)
      (sent ++ c.writeQueue ++ (s.sm.processEvent e).2.filterMap Effect.frame?) v') :
    Conversing live sent v' (c.handle i e) := by
  rw [handle_of_sub hi]
  exact h.feed ((h.sane s (List.mem_of_getElem? hi)).given howner he) hconverses

/-! ### The steps of a subscription -/

theorem close (h : Conversing live sent v c) (hi : c.subs[i]? = some s) :
    Conversing live sent v
      ((c.setSub i { s with sm := s.sm.close.1, pc := .awaitingClosed }).performAll
        s.sm.close.2) :=
  h.feed (h.sane s (List.mem_of_getElem? hi)).close fun hlive ↦
    (h.converses hlive).close (machines_getElem? hi)

theorem cancelOne (h : Conversing live sent v c) {index : ChannelMarketPair} {node : ℕ}
    {wake : Option ℕ} (hd : c.cancelOne index node wake = some d) : Conversing live sent v d := by
  rcases cancelOne_cases hd with ⟨-, rfl, -⟩ | ⟨j, s, -, hs, -, rfl⟩
  · exact h
  · have hsane := h.sane s (List.mem_of_getElem? hs)
    refine h.setSub hs (hsane.moveOn s.pc.wake s.node s.stopLatch ?_ fun hidle ↦ hsane.idle ?_) rfl
    · rw [Pc.hasClosed?_wake]
      exact fun _ hb ↦ hb
    · rwa [Pc.isOwner_wake] at hidle

theorem releaseChannel (h : Conversing live sent v c) {index : ChannelMarketPair} {node : ℕ}
    {wake : Option ℕ} (hd : c.releaseChannel index node wake = some d) :
    Conversing live sent v d := by
  obtain ⟨cs, -, ⟨-, -, rfl⟩ | ⟨-, hcancel⟩⟩ := releaseChannel_cases hd
  · exact h.congr rfl rfl
  · have hchecked : Conversing live sent v ((c.checkRelease cs).setChannel index
        { cs with acquired := false, interest := cs.interest - 1 }) := h.congr rfl rfl
    exact hchecked.cancelOne hcancel

/-- A subscription leaves only with a machine that is closed. -/
theorem awaitClosed (h : Conversing live sent v c) (hi : c.subs[i]? = some s) {wake : Option ℕ}
    (hd : c.awaitClosed i s wake = some d) : Conversing live sent v d := by
  unfold Connector.awaitClosed at hd
  split_ifs at hd with hlatch hwake
  · rw [Option.bind_eq_bind, Option.bind_eq_some_iff] at hd
    obtain ⟨e, he, hd⟩ := hd
    rw [Option.some_inj] at hd
    subst hd
    obtain ⟨pc, hpc⟩ := releaseChannel_getElem? hi he
    have hsane := h.sane s (List.mem_of_getElem? hi)
    refine (h.releaseChannel he).setSub hpc (hsane.moveOn .left s.node s.stopLatch
      (by simp [Pc.hasClosed?]) fun _ ↦ ?_) rfl
    exact StateType.phase?_eq_none.mpr (.inr (hsane.latch.mp hlatch))
  · exact Option.some_inj.mp hd ▸ h

theorem closeMachine (h : Conversing live sent v c) (hi : c.subs[i]? = some s) {wake : Option ℕ}
    (hd : c.closeMachine i s wake = some d) : Conversing live sent v d := by
  refine (h.close hi).awaitClosed ?_ hd
  rw [performAll_subs]
  exact getElem?_setSub hi _

theorem awaitStop (h : Conversing live sent v c) (hi : c.subs[i]? = some s) {wake : Option ℕ}
    (hd : c.awaitStop i s wake = some d) : Conversing live sent v d := by
  rcases awaitStop_cases hd with rfl | hclose
  · exact h
  · exact h.closeMachine hi hclose

/-- A subscription takes its channel while no machine has anything to do with the venue on it. -/
theorem acquire (h : Conversing live sent v c) (hi : c.subs[i]? = some t) (ht : s.Sane)
    (hpc : s.pc.hasClosed? = some false) (hsm : s.sm = t.sm)
    (hfree : live = true → c.machines.filterMap (·.phaseOn s.topic) = []) {wake : Option ℕ}
    (hd : c.acquire i s wake = some d) : Conversing live sent v d := by
  have htaken (cs : ChannelState) : Conversing live sent v (c.taken i s cs) := by
    have hset : Conversing live sent v
        (c.setChannel s.topic { cs with acquired := true, onEvent := some i }) := h.congr rfl rfl
    refine hset.setSub hi (ht.moveOn .awaitingStop s.node s.stopLatch ?_ fun hidle ↦ ?_) hsm
    · rw [hpc]
      exact fun _ hb ↦ hb
    · simp [Pc.isOwner] at hidle
  obtain ⟨cs, -, ⟨hup, hstop⟩ | ⟨hdown, hstop⟩⟩ := acquire_cases hd
  · have hi' := getElem?_taken hi s cs
    have hhandled : Conversing live sent v ((c.taken i s cs).handle i .connectionUp) := by
      refine (htaken cs).handle hi' rfl (expected_of_not_isResponse rfl) fun hlive ↦ ?_
      refine ((htaken cs).converses hlive).up (machines_getElem? hi') ?_
      have hsame : (c.taken i s cs).machines = c.machines :=
        machines_setSub_of_eq (c := c.setChannel s.topic _) hi hsm
      have htopic : ({ s with pc := .awaitingStop } : Subscription).sm.topic = s.topic := ht.topic
      rw [hsame, htopic]
      exact hfree hlive
    refine hhandled.awaitStop ?_ hstop
    rw [handle_of_sub hi', performAll_subs]
    exact getElem?_setSub hi' _
  · exact (htaken cs).awaitStop (getElem?_taken hi s cs) hstop

/-- A machine that has something to do with the venue is the one whose handler the channel
stores. -/
theorem handler_of_voice (h : Conversing live sent v c) (hexclusive : Handover.Exclusive c.view)
    (hi : c.subs[i]? = some s) {index : ChannelMarketPair} {phase : Phase}
    (hvoice : s.sm.phaseOn index = some phase) :
    ∃ cs, c.channelStates.lookup index = some cs ∧ cs.acquired = true ∧ cs.onEvent = some i := by
  have hsane := h.sane s (List.mem_of_getElem? hi)
  unfold StateMachine.phaseOn at hvoice
  split_ifs at hvoice with htopic
  -- a subscription without its channel has a machine that says nothing
  have howner : s.pc.isOwner = true := by
    by_contra hnot
    rw [hsane.idle (Bool.eq_false_iff.mpr hnot)] at hvoice
    exact absurd hvoice (by simp)
  obtain ⟨e, he, hacq, hhandler⟩ := hexclusive index i
    ⟨s.party, view_parties hi, hsane.topic.symm.trans htopic, Pc.phase_of_isOwner howner⟩
  obtain ⟨cs, hlookup, rfl⟩ := slots_view_eq_some he
  exact ⟨cs, hlookup, hacq, hhandler⟩

theorem voices_of_free (h : Conversing live sent v c) (hexclusive : Handover.Exclusive c.view)
    {index : ChannelMarketPair}
    (hfree : ∀ cs ∈ c.channelStates.lookup index, cs.acquired = false) :
    c.machines.filterMap (·.phaseOn index) = [] := by
  refine List.filterMap_eq_nil_iff.mpr fun sm hsm ↦ ?_
  obtain ⟨s, hs, rfl⟩ := List.mem_map.mp hsm
  obtain ⟨i, hi⟩ := List.mem_iff_getElem?.mp hs
  by_contra hvoice
  obtain ⟨phase, hphase⟩ := Option.ne_none_iff_exists'.mp hvoice
  obtain ⟨cs, hlookup, hacq, -⟩ := h.handler_of_voice hexclusive hi hphase
  rw [hfree cs hlookup] at hacq
  exact absurd hacq (by decide)

theorem enter (h : Conversing live sent v c) (hexclusive : Handover.Exclusive c.view)
    (hi : c.subs[i]? = some s) (hpc : s.pc = .spawned) {wake : Option ℕ}
    (hd : c.enter i s wake = some d) : Conversing live sent v d := by
  have hsane := h.sane s (List.mem_of_getElem? hi)
  have hidle : s.sm.state.phase? = none := hsane.idle (by rw [hpc]; rfl)
  have hclosed : s.pc.hasClosed? = some false := by
    rw [hpc]
    rfl
  have hsubs := subs_locateChannel c s.topic
  have hlocated : Conversing live sent v (c.locateChannel s.topic).2 := by
    refine h.congr hsubs ?_
    unfold locateChannel
    split <;> rfl
  have hi' : (c.locateChannel s.topic).2.subs[i]? = some s := by
    rw [hsubs]
    exact hi
  unfold Connector.enter at hd
  dsimp only at hd
  split_ifs at hd with hacq hwake hlatch
  · refine Option.some_inj.mp hd ▸ hlocated.setSub hi' (hsane.moveOn _ _ _ ?_ fun _ ↦ hidle) rfl
    exact fun b hb ↦ hclosed ▸ hb
  · refine Option.some_inj.mp hd ▸ hlocated.setSub hi' (hsane.moveOn _ _ _ ?_ fun _ ↦ hidle) rfl
    exact fun b hb ↦ hclosed ▸ hb
  · have hmoved := hsane.moveOn s.pc (c.locateChannel s.topic).1.node s.stopLatch (fun _ hb ↦ hb)
      fun _ ↦ hidle
    refine hlocated.acquire hi' hmoved hclosed rfl (fun _ ↦ ?_) hd
    rw [machines, hsubs, ← machines]
    refine h.voices_of_free hexclusive fun cs hcs ↦ ?_
    rw [Option.mem_def] at hcs
    simp only [locateChannel, hcs] at hacq
    exact Bool.eq_false_iff.mpr hacq

theorem resume (h : Conversing live sent v c) (hexclusive : Handover.Exclusive c.view)
    {wake : Option ℕ} (hfree : TakesFree (.resume i wake) c)
    (hd : c.resume i wake = some d) : Conversing live sent v d := by
  obtain ⟨s, hi, ⟨hpc, henter⟩ | ⟨hpc, rfl⟩ | ⟨hpc, hacquire⟩ | ⟨hpc, hclose⟩ | ⟨hpc, hclosed⟩⟩ :=
    resume_cases hd
  · exact h.enter hexclusive hi hpc henter
  · have hsane := h.sane s (List.mem_of_getElem? hi)
    refine h.setSub hi (hsane.moveOn .left s.node s.stopLatch (by simp [Pc.hasClosed?])
      fun _ ↦ hsane.idle ?_) rfl
    rw [hpc]
    rfl
  · refine h.acquire hi (h.sane s (List.mem_of_getElem? hi)) (by rw [hpc]; rfl) rfl (fun _ ↦ ?_)
      hacquire
    exact h.voices_of_free hexclusive (hfree (i, wake) rfl s hi hpc)
  · exact h.closeMachine hi hclose
  · exact h.awaitClosed hi hclosed

/-! ### What the handlers are told -/

theorem tell (h : Conversing live sent v c) (hmanned : Handover.Manned c.view) {e : ChannelEvent}
    {index : ChannelMarketPair} {v' : Venue}
    (hskip : live = true → (∀ cs ∈ c.channelStates.lookup index, cs.acquired = false) →
      Converses c.machines (sent ++ c.writeQueue) v')
    (hfeed : ∀ cs i s, c.channelStates.lookup index = some cs → cs.onEvent = some i →
      c.subs[i]? = some s → s.topic = index → Expected (s.sm.state, e) ∧
        (live = true → Converses (c.machines.set i (s.sm.processEvent e).1)
          (sent ++ c.writeQueue ++ (s.sm.processEvent e).2.filterMap Effect.frame?) v')) :
    Conversing live sent v' (c.tell e index) := by
  rcases tell_cases hmanned e index with
    ⟨htell, hfree⟩ | ⟨cs, i, s, hlookup, hacq, hhandler, hi, htopic, -, htell⟩
  · rw [htell]
    exact ⟨h.sane, fun hlive ↦ hskip hlive hfree⟩
  · obtain ⟨hexpected, hconverses⟩ := hfeed cs i s hlookup hhandler hi htopic
    obtain ⟨j, hj, p, hp, -, howning⟩ := hmanned index cs.slot (view_slots hlookup) hacq
    obtain rfl : i = j := Option.some_inj.mp (hhandler.symm.trans hj)
    rw [view_parties hi, Option.some_inj] at hp
    have howner : s.pc.isOwner = true := by
      rcases Pc.phase_eq_owning (hp ▸ howning) with hpc | hpc <;> rw [hpc] <;> rfl
    rw [htell]
    exact h.handle hi howner hexpected hconverses

/-- Everybody is told of the connection. While it is live that is at its beginning, when nobody has
anything to do with the venue. -/
theorem broadcast (h : Conversing live sent v c) (hmanned : Handover.Manned c.view)
    {e : ChannelEvent} (he : e.isResponse = false) {order : List ChannelMarketPair}
    (hnodup : order.Nodup)
    (hidle : live = true → e = .connectionUp ∧
      ∀ index ∈ order, c.machines.filterMap (·.phaseOn index) = []) :
    Conversing live sent v (c.broadcast order e) := by
  -- by induction on the walk: a channel is told once, so the others are still quiet
  induction order generalizing c with
  | nil => exact h
  | cons index order ih =>
    obtain ⟨hnot, hnodup⟩ := List.nodup_cons.mp hnodup
    have hmanned' : Handover.Manned (c.tell e index).view := by
      rwa [(tell_undisturbed c e index).view_eq]
    refine ih (c := c.tell e index) ?_ hmanned' hnodup fun hlive ↦ ⟨(hidle hlive).1, fun k hk ↦ ?_⟩
    · refine h.tell hmanned (fun hlive _ ↦ h.converses hlive) fun cs i s _ _ hi htopic ↦ ?_
      refine ⟨expected_of_not_isResponse he, fun hlive ↦ ?_⟩
      obtain ⟨rfl, hvoices⟩ := hidle hlive
      refine (h.converses hlive).up (machines_getElem? hi) ?_
      rw [(h.sane s (List.mem_of_getElem? hi)).topic, htopic]
      exact hvoices index List.mem_cons_self
    · rcases tell_cases hmanned e index with
        ⟨htell, -⟩ | ⟨cs, i, s, -, -, -, hi, htopic, -, htell⟩
      · rw [htell]
        exact (hidle hlive).2 k (List.mem_cons_of_mem _ hk)
      · -- the machine that was told is on another channel
        have hne : s.sm.topic ≠ k := by
          rw [(h.sane s (List.mem_of_getElem? hi)).topic, htopic]
          exact (ne_of_mem_of_not_mem hk hnot).symm
        have hmachines : (c.tell e index).machines = c.machines.set i (s.sm.processEvent e).1 := by
          rw [htell, handle_of_sub hi, machines, performAll_subs, ← machines, machines_setSub]
          rfl
        rw [hmachines, Collections.filterMap_set_of_eq (machines_getElem? hi)]
        · exact (hidle hlive).2 k (List.mem_cons_of_mem _ hk)
        · rw [StateMachine.phaseOn_of_ne hne]
          exact StateMachine.phaseOn_of_ne ((s.sm.topic_feed (.event e)).trans_ne hne)

theorem weaken {live' : Bool} (h : Conversing live sent v c) (hlive : live' = true → live = true) :
    Conversing live' sent v c :=
  ⟨h.sane, fun hlive' ↦ h.converses (hlive hlive')⟩

theorem modifyTasks (h : Conversing live sent v c) (f : Tasks → Tasks) :
    Conversing live sent v (c.modifyTasks f) := h.congr rfl rfl

/-- A frame that is no request is pushed. -/
theorem send (h : Conversing live sent v c) {frame : Frame} (hframe : frame.request? = none) :
    Conversing live sent v (c.send frame) where
  sane := h.sane
  converses hlive := by
    have happend := (h.converses hlive).append (List.forall_mem_singleton.mpr hframe)
    rwa [List.append_assoc] at happend

/-- Nobody hears of a subscription that was just started. -/
theorem start (h : Conversing live sent v c) (topic : ChannelMarketPair) :
    Conversing live sent v { c with subs := c.subs ++ [.new topic] } where
  sane s hs := by
    rcases List.mem_append.mp hs with hs | hs
    · exact h.sane s hs
    · rw [List.mem_singleton.mp hs]
      exact Subscription.sane_new topic
  converses hlive index := by
    obtain ⟨p, hp, hagrees⟩ := h.converses hlive index
    refine ⟨p, ?_, hagrees⟩
    have hquiet : (Subscription.new topic).sm.phaseOn index = none := by
      unfold StateMachine.phaseOn
      split_ifs <;> rfl
    rw [machines, List.map_append, List.filterMap_append, ← machines, hp, List.map_singleton,
      List.filterMap_cons_none hquiet, List.filterMap_nil, List.append_nil]

theorem drop (h : Conversing live sent v c) : Conversing live sent v c.drop := by
  unfold Connector.drop
  split_ifs
  · exact h.congr rfl rfl
  · exact h

/-- What is read is what somebody expects. -/
theorem handleMessage (h : Conversing live sent { v with outbox := jframe :: outbox } c)
    (hlive : live = true) (hmanned : Handover.Manned c.view)
    (hexclusive : Handover.Exclusive c.view) :
    Conversing live sent { v with outbox } (c.handleMessage (.text (some jframe))) := by
  have hconverses := h.converses hlive
  simp only [Connector.handleMessage]
  rcases hroute : route jframe with _ | _ | index
  · exact ⟨h.sane, fun _ ↦ hconverses.skip (by simp [hroute])⟩
  · exact ⟨h.sane, fun _ ↦ hconverses.skip (by simp [hroute])⟩
  · obtain ⟨phase, q, hvoices, hnext, -⟩ := hconverses.expects hroute
    -- the machine that the conversation is with is the one that the channel calls
    obtain ⟨sm, hsm, hphase⟩ := List.mem_filterMap.mp (hvoices ▸ List.mem_singleton_self phase)
    obtain ⟨s, hs, rfl⟩ := List.mem_map.mp hsm
    obtain ⟨j, hj⟩ := List.mem_iff_getElem?.mp hs
    obtain ⟨ks, hks, hacq, hhandler⟩ := h.handler_of_voice hexclusive hj hphase
    refine h.tell hmanned (fun _ hfree ↦ ?_) fun cs i s' hlookup hi hs' htopic ↦ ?_
    · rw [hfree ks hks] at hacq
      exact absurd hacq (by decide)
    · obtain rfl : cs = ks := Option.some_inj.mp (hlookup.symm.trans hks)
      obtain rfl : i = j := Option.some_inj.mp (hi.symm.trans hhandler)
      obtain rfl : s' = s := Option.some_inj.mp (hs'.symm.trans hj)
      have hindex : s'.sm.topic = index := (h.sane s' hs).topic.trans htopic
      subst hindex
      obtain ⟨hexpected, hread⟩ := hconverses.response (machines_getElem? hj) hroute
        (by rw [hvoices, ← StateMachine.phaseOn_self, hphase]; rfl)
      exact ⟨hexpected, fun _ ↦ hread⟩

end Conversing

/-! ## The steps of the connector -/

theorem pinger_conversing {args : Args} {a : Action} {live : Bool} {sent : List Frame} {v : Venue}
    (ha : a = .beginPinger ∨ a = .pongPopped ∨ a = .pongTimeout ∨ a = .pingDue)
    (h : Conversing live sent v c) (hd : step args a c = some d) : Conversing live sent v d := by
  obtain ⟨t, -, -, rfl | rfl | ⟨-, -, rfl⟩⟩ := pinger_cases ha hd
  · exact Conversing.modifyTasks (h.send rfl) _
  · exact (h.congr rfl rfl : Conversing live sent v { c with pongBuffer := none }).modifyTasks _
  · exact h.modifyTasks _

theorem readerLive_leaveReconnect (c : Connector) : c.leaveReconnect.phase.readerLive = false := by
  unfold leaveReconnect
  split_ifs <;> rfl

theorem readerLive_of_modifyTasks {f : Tasks → Tasks}
    (hf : ∀ t, (f t).reader.outcome? = none → t.reader.outcome? = none)
    (h : (c.modifyTasks f).phase.readerLive = true) : c.phase.readerLive = true := by
  unfold Connector.modifyTasks at h
  rcases hphase : c.phase with _ | _ | t | _ | _
  all_goals
    rw [hphase] at h
    simp [RunPhase.mapTasks, RunPhase.readerLive, RunPhase.tasks?] at h ⊢
  exact hf t h

/-- A reader runs only if it ran before, unless a connection was opened. -/
theorem readerLive_of_step {args : Args} {a : Action}
    (hconnected : ∀ ok order, a ≠ .connected ok order) (hd : step args a c = some d)
    (hlive : d.phase.readerLive = true) : c.phase.readerLive = true := by
  have honline {t : Tasks} (hphase : c.phase = .online t) (ht : t.reader.outcome? = none) :
      c.phase.readerLive = true := by
    simp [hphase, RunPhase.readerLive, RunPhase.tasks?, ht]
  by_cases ha : a.IsConnection
  · cases connection_move ha hd with
    | send payload =>
      rwa [Connector.send, Connector.modifyTasks, RunPhase.readerLive_wakeWriter] at hlive
    | drop => rwa [← (perform_undisturbed c .drop).keepsConnection.readerLive]
    | requestStop =>
      exact readerLive_of_modifyTasks (c := { c with stopRequested := true }) (f := Tasks.cancel)
        (fun _ ht ↦ ht) hlive
    | stopped hphase hstop => exact Bool.noConfusion (show false = true from hlive)
    | connecting hphase hstop => exact Bool.noConfusion (show false = true from hlive)
    | badUrl hphase hstop =>
      exact absurd ((readerLive_leaveReconnect c).symm.trans hlive) (by decide)
    | @abandoned ok order hphase hwalks hstop => exact absurd rfl (hconnected ok order)
    | @announced ok order hphase hwalks hstop => exact absurd rfl (hconnected ok order)
    | beginReader hphase ht => exact honline hphase (by rw [ht]; rfl)
    | readMessage hphase ht => exact honline hphase (by rw [ht]; rfl)
    | readError hphase ht hwalks => exact honline hphase (by rw [ht]; rfl)
    | writer ha hphase ht =>
      refine honline hphase ?_
      rcases ht with rfl | ⟨w, -, rfl⟩ <;>
        simpa [RunPhase.readerLive, RunPhase.tasks?, Tasks.endWriter, Tasks.cancel] using hlive
    | pinger ha hphase ht =>
      refine honline hphase ?_
      rcases ht with ⟨p, -, rfl⟩ | ⟨p, -, rfl⟩ <;>
        simpa [RunPhase.readerLive, RunPhase.tasks?, Tasks.wakeWriter] using hlive
    | joined hphase ht hwalks =>
      exact absurd ((readerLive_leaveReconnect _).symm.trans hlive) (by decide)
    | failed hphase ht => exact absurd ((readerLive_leaveReconnect c).symm.trans hlive) (by decide)
  · rwa [(keepsConnection ha hd).readerLive] at hlive

/-- What the subscriptions do. -/
theorem subscription_conversing {args : Args} {a : Action} {live : Bool} {sent : List Frame}
    {v : Venue} (hexclusive : Handover.Exclusive c.view) (h : Conversing live sent v c)
    (ha : ¬a.IsConnection) (hfree : TakesFree a c) (hd : step args a c = some d) :
    Conversing live sent v d := by
  cases a with
  | start topic =>
    obtain rfl := Option.some_inj.mp hd
    exact h.start topic
  | stop i =>
    obtain ⟨s, hs, ⟨hpc, rfl⟩ | rfl⟩ := Connector.stop_cases hd
    · have hsane := h.sane s (List.mem_of_getElem? hs)
      refine h.setSub hs (hsane.moveOn (.waiting .stopping) s.node true ?_
        fun _ ↦ hsane.idle ?_) rfl
      · rw [hpc]
        exact fun _ hb ↦ hb
      · rw [hpc]
        rfl
    · have hsane := h.sane s (List.mem_of_getElem? hs)
      exact h.setSub hs (hsane.moveOn s.pc s.node true (fun _ hb ↦ hb) hsane.idle) rfl
  | settle i =>
    obtain ⟨s, hs, hpc, rfl⟩ := Connector.settle_cases hd
    have hsane := h.sane s (List.mem_of_getElem? hs)
    refine h.setSub hs (hsane.moveOn (.waiting .stopped) s.node s.stopLatch ?_
      fun _ ↦ hsane.idle ?_) rfl
    · rw [hpc]
      exact fun _ hb ↦ hb
    · rw [hpc]
      rfl
  | resume i wake => exact h.resume hexclusive hfree hd
  | _ => exact absurd trivial ha

/-- A step that neither opens a connection nor writes nor reads a text leaves the conversations as
they are, but for what the subscriptions do. -/
theorem step_conversing {args : Args} {a : Action} {sent : List Frame} {v : Venue} (hc : c.Sound)
    (hexclusive : Handover.Exclusive c.view) (h : Conversing c.phase.readerLive sent v c)
    (hfree : TakesFree a c) (hwriter : a.isWriter = false)
    (hconnected : ∀ ok order, a ≠ .connected ok order)
    (htext : ∀ jframe?, a ≠ .readMessage (.text jframe?)) (hd : step args a c = some d) :
    Conversing d.phase.readerLive sent v d := by
  -- the step makes no connection live, so what holds on a live one before holds after
  have hkept (hsame : Conversing c.phase.readerLive sent v d) :
      Conversing d.phase.readerLive sent v d := hsame.weaken (readerLive_of_step hconnected hd)
  have hdead (he : d.phase.readerLive = false) (hsane : Conversing false sent v d) :
      Conversing d.phase.readerLive sent v d := by
    rwa [he]
  have hfalse : Conversing false sent v c := h.weaken fun hlive ↦ absurd hlive (by decide)
  by_cases ha : a.IsConnection
  · cases connection_move ha hd with
    | send payload => exact hkept (h.send rfl)
    | drop => exact hkept h.drop
    | requestStop =>
      have hstopped : Conversing c.phase.readerLive sent v { c with stopRequested := true } :=
        h.congr rfl rfl
      exact hkept (hstopped.modifyTasks _)
    | stopped hphase hstop => exact hdead rfl (hfalse.congr rfl rfl)
    | connecting hphase hstop => exact hdead rfl (hfalse.congr rfl rfl)
    | badUrl hphase hstop => exact hdead (readerLive_leaveReconnect c) (hfalse.congr rfl rfl)
    | @abandoned ok order hphase hwalks hstop => exact absurd rfl (hconnected ok order)
    | @announced ok order hphase hwalks hstop => exact absurd rfl (hconnected ok order)
    | beginReader hphase ht => exact hkept (h.modifyTasks _)
    | @readMessage t msg hphase ht =>
      rcases msg with _ | jframe?
      · exact hkept (h.modifyTasks _)
      · exact absurd rfl (htext jframe?)
    | @readError t order hphase ht hwalks =>
      -- the reader returns, and the conversations are over
      refine hdead ?_ ?_
      · have hkeeps := (broadcast_undisturbed c order .connectionDown).keepsConnection
        obtain ⟨t', ht', -⟩ := hkeeps.phase_online hphase
        simp [Connector.modifyTasks, ht', RunPhase.mapTasks, RunPhase.readerLive, RunPhase.tasks?,
          Tasks.endReader, Reader.outcome?]
      · exact (hfalse.broadcast hc.manned rfl hwalks.nodup (by simp)).modifyTasks _
    | writer ha hphase ht =>
      rcases ha with rfl | rfl | ⟨ok, rfl⟩ <;> simp [Action.isWriter] at hwriter
    | pinger ha hphase ht => exact hkept (pinger_conversing ha h hd)
    | @joined t order hphase ht hwalks =>
      refine hdead (readerLive_leaveReconnect _) ?_
      have hannounced : Conversing false sent v (c.announce .down) := hfalse.congr rfl rfl
      have hmanned : Handover.Manned (c.announce .down).view := hc.manned
      have htold := hannounced.broadcast hmanned (e := .connectionDown) rfl hwalks.nodup (by simp)
      exact htold.congr rfl rfl
    | failed hphase ht => exact hdead (readerLive_leaveReconnect c) (hfalse.congr rfl rfl)
  · exact hkept (subscription_conversing hexclusive h ha hfree hd)

/-- When a connection is opened nobody has anything to do with the venue. -/
theorem Conversing.voices_of_connecting {live : Bool} {sent : List Frame} {v : Venue}
    (h : Conversing live sent v c) (hexclusive : Handover.Exclusive c.view) (hc : c.Informed)
    (hphase : c.phase = .connecting) (index : ChannelMarketPair) :
    c.machines.filterMap (·.phaseOn index) = [] := by
  refine List.filterMap_eq_nil_iff.mpr fun sm hsm ↦ ?_
  obtain ⟨s, hs, rfl⟩ := List.mem_map.mp hsm
  obtain ⟨i, hi⟩ := List.mem_iff_getElem?.mp hs
  by_contra hvoice
  obtain ⟨phase, hphase'⟩ := Option.ne_none_iff_exists'.mp hvoice
  obtain ⟨cs, hlookup, hacq, hhandler⟩ := h.handler_of_voice hexclusive hi hphase'
  have htold := hc.told
  rw [mayAnnounce, hphase] at htold
  obtain ⟨s', hs', -, -, hlinked⟩ := htold.handler index cs i hlookup hacq hhandler
  obtain rfl : s = s' := Option.some_inj.mp (hi.symm.trans hs')
  have hidle := StateType.phase?_eq_none.mpr ((hlinked rfl).state rfl)
  unfold StateMachine.phaseOn at hphase'
  split_ifs at hphase'
  rw [hidle] at hphase'
  exact absurd hphase' (by simp)

/-- A new connection begins with nothing on its way but the login frame and the requests of those
who were told of it. -/
theorem connected_conversing {args : Args} {ok : Bool} {order : List ChannelMarketPair}
    {live : Bool} {sent : List Frame} {v : Venue} (hc : c.Sound)
    (hexclusive : Handover.Exclusive c.view) (hinformed : c.Informed)
    (h : Conversing live sent v c) (hd : step args (.connected ok order) c = some d) :
    Conversing d.phase.readerLive [] {} d := by
  have htold (hphase : c.phase = .connecting) (hwalks : c.Walks order) :
      Conversing true [] {} ((c.opened args ok).notifyConnectionState .up order) := by
    have hvoices := h.voices_of_connecting hexclusive hinformed hphase
    have hannounced : Conversing true [] {} ((c.opened args ok).announce .up) := by
      refine ⟨h.sane, fun _ ↦ Converses.fresh (fun sm hsm ↦ ?_) fun frame hframe ↦ ?_⟩
      · have hquiet := List.filterMap_eq_nil_iff.mp (hvoices sm.topic) sm hsm
        rwa [StateMachine.phaseOn_self] at hquiet
      · have hlogin : frame ∈ if args.hasAuth then [Frame.login] else [] := hframe
        split_ifs at hlogin
        · rw [List.mem_singleton.mp hlogin]
          rfl
        · exact absurd hlogin List.not_mem_nil
    exact hannounced.broadcast hc.manned rfl hwalks.nodup fun _ ↦ ⟨rfl, fun index _ ↦ hvoices index⟩
  cases connection_move (a := .connected ok order) trivial hd with
  | abandoned hphase hwalks hstop =>
    rw [readerLive_leaveReconnect]
    exact ((htold hphase hwalks).weaken fun _ ↦ rfl).congr rfl rfl
  | announced hphase hwalks hstop => exact (htold hphase hwalks).congr rfl rfl
  | writer ha => rcases ha with ha | ha | ⟨ok, ha⟩ <;> simp at ha
  | pinger ha => rcases ha with ha | ha | ha | ha <;> simp at ha

/-- The writer moves frames from the queue to the venue, and may lose one when it ends. -/
theorem writer_conversing {args : Args} {a : Action} {v : Venue} (ha : a.isWriter = true)
    (h : Conversing c.phase.readerLive v.inbox v c) (hd : step args a c = some d) :
    ∃ lost, (lost ≠ [] → ∀ t ∈ d.phase.tasks?, t.writer.outcome? ≠ none) ∧
      Conversing d.phase.readerLive (v.inbox ++ d.writing?.toList ++ lost) v d := by
  have hkeeps : d.subs = c.subs ∧ d.phase.readerLive = c.phase.readerLive := by
    have hconnection : a.IsConnection := by
      cases a <;> simp [Action.isWriter] at ha <;> trivial
    cases connection_move hconnection hd with
    | @writer a t t' queue ha hphase ht =>
      refine ⟨rfl, ?_⟩
      rw [hphase]
      rcases ht with rfl | ⟨w, -, rfl⟩ <;> rfl
    | pinger ha' =>
      rcases ha' with rfl | rfl | rfl | rfl <;> simp [Action.isWriter] at ha
    | _ => simp [Action.isWriter] at ha
  -- the frames between the machines and the venue are the same, wherever they are
  have hmoved {sent : List Frame} (hsent : sent ++ d.writeQueue = v.inbox ++ c.writeQueue) :
      Conversing d.phase.readerLive sent v d := by
    refine ⟨hkeeps.1 ▸ h.sane, fun hlive ↦ ?_⟩
    rw [machines, hkeeps.1, hsent]
    exact h.converses (hkeeps.2 ▸ hlive)
  have hqueue' := step_writeQueue hd
  cases (writer_step ha hd).2 with
  | ends hcalls hidle =>
    rw [hcalls, List.foldl_nil] at hqueue'
    exact ⟨[], by simp, hmoved (by simp [hqueue', hidle])⟩
  | waits hlooks hqueue hidle =>
    rw [hlooks.foldl_apply, hqueue] at hqueue'
    exact ⟨[], by simp, hmoved (by simp [hqueue', hqueue, hidle])⟩
  | writes hlooks hqueue hwriting =>
    rw [hlooks.foldl_apply, hqueue] at hqueue'
    exact ⟨[], by simp, hmoved (by simp [hqueue', hqueue, hwriting])⟩
  | @loses frame rest hlooks hqueue hidle hended =>
    rw [hlooks.foldl_apply, hqueue] at hqueue'
    exact ⟨[frame], fun _ ↦ hended, hmoved (by simp [hqueue', hqueue, hidle])⟩

/-- The reader is handed the oldest message. -/
theorem receive_conversing {args : Args} {sent : List Frame} {v : Venue} {jframe : Json.Value}
    {outbox : List Json.Value} (hc : c.Sound) (hexclusive : Handover.Exclusive c.view)
    (h : Conversing c.phase.readerLive sent { v with outbox := jframe :: outbox } c)
    (hd : step args (.readMessage (.text (some jframe))) c = some d) :
    Conversing d.phase.readerLive sent { v with outbox } d := by
  cases connection_move (a := .readMessage (.text (some jframe))) trivial hd with
  | @readMessage t msg hphase ht =>
    have hlive : c.phase.readerLive = true := by
      simp [hphase, RunPhase.readerLive, RunPhase.tasks?, ht, Reader.outcome?]
    have hhandled := (hlive ▸ h).handleMessage rfl hc.manned hexclusive
    exact (hhandled.modifyTasks _).weaken fun _ ↦ rfl
  | writer ha => rcases ha with ha | ha | ⟨ok, ha⟩ <;> simp at ha
  | pinger ha => rcases ha with ha | ha | ha | ha <;> simp at ha

end Connector

/-! ## The two together -/

namespace Dialogue

variable {args : Args} {o o' : Dialogue}

/-- What the connector and the venue have come to. -/
structure InStep (o : Dialogue) : Prop where
  /-- Every message that a machine was given is one that its state expects. -/
  expected : ∀ s ∈ o.connector.subs, ∀ x ∈ s.seen, Expected x
  /-- No request of the connection that is being read was refused. -/
  refused : o.connector.phase.readerLive = true → o.venue.refused = []
  /-- When nothing is on its way on a connection that is being read and written, exactly what open
  machines have is published, and no machine waits for an answer. -/
  atRest : ∀ t, o.connector.phase = .online t → t.reader.outcome? = none →
    t.writer.outcome? = none → o.connector.writeQueue = [] → o.venue.inbox = [] →
    o.venue.outbox = [] →
    (∀ index, o.venue.published index = true ↔
      ∃ s ∈ o.connector.subs, s.topic = index ∧ s.sm.state = .open) ∧
    ∀ s ∈ o.connector.subs, s.sm.state ≠ .opening ∧ s.sm.state ≠ .closing

/-- What carries it from step to step. A frame that the writer took and did not write is lost to a
connection that nobody writes any more. -/
structure Agreed (o : Dialogue) : Prop where
  sound : o.connector.Sound
  exclusive : Handover.Exclusive o.connector.view
  informed : o.connector.Informed
  conversing : ∃ lost, (lost ≠ [] → ∀ t ∈ o.connector.phase.tasks?, t.writer.outcome? ≠ none) ∧
    o.connector.Conversing o.connector.phase.readerLive (o.venue.inbox ++ lost) o.venue
  refused : o.connector.phase.readerLive = true → o.venue.refused = []

theorem agreed_fresh : Agreed {} where
  sound := Connector.sound_fresh
  exclusive := Handover.exclusive_initial
  informed := Connector.informed_fresh
  conversing := ⟨[], by simp, ⟨List.forall_mem_nil _, fun hlive ↦ absurd hlive (by decide)⟩⟩
  refused _ := rfl

namespace Agreed

/-! ### The steps of the connector -/

theorem follow_conversing {b : Ftx.Action} {d : Connector} (h : o.Agreed)
    (hfree : TakesFree b o.connector) (htext : ∀ jframe?, b ≠ .readMessage (.text jframe?))
    (hd : Ftx.step args b o.connector = some d) :
    ∃ lost, (lost ≠ [] → ∀ t ∈ d.phase.tasks?, t.writer.outcome? ≠ none) ∧
      d.Conversing d.phase.readerLive ((o.venue.follow b d).inbox ++ lost)
        (o.venue.follow b d) := by
  obtain ⟨lost, hlost, hconversing⟩ := h.conversing
  by_cases hconnected : ∃ ok order, b = .connected ok order
  · obtain ⟨ok, order, rfl⟩ := hconnected
    exact ⟨[], by simp,
      Connector.connected_conversing h.sound h.exclusive h.informed hconversing hd⟩
  -- any other step leaves the venue what it has, and hands it what the writer took
  have hconnected' : ∀ ok order, b ≠ .connected ok order :=
    fun ok order hb ↦ hconnected ⟨ok, order, hb⟩
  have hfollow : o.venue.follow b d =
      { o.venue with inbox := o.venue.inbox ++ if b.isWriter then d.writing?.toList else [] } := by
    unfold Venue.follow
    split
    · exact absurd rfl (hconnected' _ _)
    · rfl
  rw [hfollow]
  by_cases hwriter : b.isWriter = true
  · rw [if_pos hwriter]
    -- a writer that is running has lost nothing
    obtain ⟨t, ht, hrunning⟩ := (writer_step hwriter hd).1
    obtain rfl : lost = [] := by
      by_contra hne
      exact hlost hne t ht hrunning
    rw [List.append_nil] at hconversing
    obtain ⟨lost', hlost', hconversing'⟩ := Connector.writer_conversing hwriter hconversing hd
    exact ⟨lost', hlost', hconversing'.sane, hconversing'.converses⟩
  · rw [if_neg hwriter, List.append_nil]
    rw [Bool.not_eq_true] at hwriter
    refine ⟨lost, fun hne t ht ↦ ?_, ?_⟩
    · obtain ⟨t', ht', houtcome⟩ := step_keepsWriter hwriter hconnected' hd t ht
      rw [houtcome]
      exact hlost hne t' ht'
    · exact Connector.step_conversing h.sound h.exclusive hconversing hfree hwriter hconnected'
        htext hd

/-- The connector takes a step. -/
theorem connector {b : Ftx.Action} {d : Connector} {venue : Venue} (h : o.Agreed)
    (hfree : TakesFree b o.connector) (hinforms : InformsAll b o.connector)
    (hd : Ftx.step args b o.connector = some d)
    (hconversing : ∃ lost, (lost ≠ [] → ∀ t ∈ d.phase.tasks?, t.writer.outcome? ≠ none) ∧
      d.Conversing d.phase.readerLive (venue.inbox ++ lost) venue)
    (hrefused : d.phase.readerLive = true → venue.refused = []) :
    Agreed { connector := d, venue } where
  sound := Connector.step_sound h.sound hd
  exclusive := Handover.path_invariant Handover.step_exclusive h.exclusive
    (step_path (fun _ _ _ ↦ freeTakeover_of_takesFree hfree) hd)
  informed := step_informed h.informed hinforms hd
  conversing := hconversing
  refused := hrefused

/-! ### The steps of the venue -/

theorem venue {venue : Venue} (h : o.Agreed)
    (hvenue : o.connector.phase.readerLive = true → ∀ frames,
      Converses o.connector.machines (o.venue.inbox ++ frames) o.venue →
        Converses o.connector.machines (venue.inbox ++ frames) venue ∧
          (o.venue.refused = [] → venue.refused = [])) : Agreed { o with venue } where
  sound := h.sound
  exclusive := h.exclusive
  informed := h.informed
  conversing := by
    obtain ⟨lost, hlost, hconversing⟩ := h.conversing
    refine ⟨lost, hlost, hconversing.sane, fun hlive ↦ ?_⟩
    have hconverses := hconversing.converses hlive
    rw [List.append_assoc] at hconverses ⊢
    exact (hvenue hlive _ hconverses).1
  refused hlive := by
    obtain ⟨lost, hlost, hconversing⟩ := h.conversing
    have hconverses := hconversing.converses hlive
    rw [List.append_assoc] at hconverses
    exact (hvenue hlive _ hconverses).2 (h.refused hlive)

theorem answer {venue : Venue} {frame : Frame} {inbox : List Frame} {reply : Json.Value}
    {index : ChannelMarketPair} {r : Request} (h : o.Agreed)
    (hinbox : o.venue.inbox = frame :: inbox) (hrequest : frame.request? = some (index, r))
    (hreply : replyOn index reply = some ((o.venue.talk [] index).verdict r))
    (hvenue : venue =
      { inbox
        published := Function.update o.venue.published index r.wants
        outbox := o.venue.outbox ++ [reply]
        refused := o.venue.refused ++
          if o.venue.published index = r.wants then [frame] else [] }) :
    Agreed { o with venue } := by
  refine h.venue fun hlive frames hconverses ↦ ?_
  rw [hinbox, List.cons_append] at hconverses
  obtain ⟨hgranted, hanswered⟩ := hconverses.answer hrequest hreply
    (by rw [hvenue] : venue.published = _) (by rw [hvenue])
  rw [hvenue] at hanswered ⊢
  refine ⟨hanswered, fun hrefused ↦ ?_⟩
  rw [hrefused, if_neg hgranted, List.append_nil]

theorem skip {frame : Frame} {inbox : List Frame} (h : o.Agreed)
    (hinbox : o.venue.inbox = frame :: inbox) (hrequest : frame.request? = none) :
    Agreed { o with venue := { o.venue with inbox } } := by
  refine h.venue fun hlive frames hconverses ↦ ?_
  rw [hinbox, List.cons_append] at hconverses
  exact ⟨hconverses.take hrequest, id⟩

theorem publish {venue : Venue} {jframe : Json.Value} (h : o.Agreed)
    (hvenue : o.venue.publish jframe = some venue) : Agreed { o with venue } := by
  refine h.venue fun hlive frames hconverses ↦ ?_
  obtain ⟨hinbox, hrefused⟩ := Venue.publish_inbox hvenue
  rw [hinbox, hrefused]
  exact ⟨hconverses.publish hvenue, id⟩

/-- What the venue sent is read. -/
theorem receive {jframe : Json.Value} {outbox : List Json.Value} {d : Connector} (h : o.Agreed)
    (hfree : TakesFree (.readMessage (.text (some jframe))) o.connector)
    (hinforms : InformsAll (.readMessage (.text (some jframe))) o.connector)
    (houtbox : o.venue.outbox = jframe :: outbox)
    (hd : Ftx.step args (.readMessage (.text (some jframe))) o.connector = some d) :
    Agreed ⟨d, { o.venue with outbox }⟩ := by
  refine h.connector hfree hinforms hd ?_ fun hlive ↦ ?_
  · obtain ⟨lost, hlost, hconversing⟩ := h.conversing
    refine ⟨lost, fun hne t ht ↦ ?_, ?_⟩
    · obtain ⟨t', ht', houtcome⟩ := step_keepsWriter rfl (by simp) hd t ht
      rw [houtcome]
      exact hlost hne t' ht'
    · have hvenue : o.venue = { o.venue with outbox := jframe :: outbox } := by
        rw [← houtbox]
      rw [hvenue] at hconversing
      exact Connector.receive_conversing h.sound h.exclusive hconversing hd
  · exact h.refused (Connector.readerLive_of_step (by simp) hd hlive)

end Agreed

/-! ### All steps -/

theorem refused_follow {b : Ftx.Action} {d : Connector} (h : o.Agreed)
    (hd : Ftx.step args b o.connector = some d) (hlive : d.phase.readerLive = true) :
    (o.venue.follow b d).refused = [] := by
  unfold Venue.follow
  split
  · rfl
  · rename_i hconnected
    exact h.refused (Connector.readerLive_of_step hconnected hd hlive)

theorem step_agreed {a : Action} (h : o.Agreed) (ha : Orderly a o)
    (hstep : step args a o = some o') : o'.Agreed := by
  cases step_move hstep with
  | @connector b d htext hd =>
    obtain ⟨hfree, hinforms⟩ := ha b rfl
    exact h.connector hfree hinforms hd (h.follow_conversing hfree htext hd) (refused_follow h hd)
  | receive houtbox hd =>
    obtain ⟨hfree, hinforms⟩ := ha _ (connector?_receive houtbox)
    exact h.receive hfree hinforms houtbox hd
  | answer hinbox hrequest hreply => exact h.answer hinbox hrequest hreply rfl
  | skip hinbox hrequest => exact h.skip hinbox hrequest
  | publish hvenue => exact h.publish hvenue

theorem run_agreed {actions : List Action} (hC : Along (step args) Orderly actions {})
    (hrun : run args actions = some o) : o.Agreed :=
  exec_invariant_of_along Orderly Agreed step_agreed agreed_fresh hC hrun

theorem Agreed.inStep (h : o.Agreed) : o.InStep where
  expected s hs := by
    obtain ⟨lost, -, hconversing⟩ := h.conversing
    exact (hconversing.sane s hs).expected
  refused := h.refused
  atRest t hphase hreader hwriter hqueue hinbox houtbox := by
    obtain ⟨lost, hlost, hconversing⟩ := h.conversing
    obtain rfl : lost = [] := by
      by_contra hne
      exact hlost hne t (Connector.tasks_of_online hphase) hwriter
    have hlive : o.connector.phase.readerLive = true := by
      simp [hphase, RunPhase.readerLive, RunPhase.tasks?, hreader]
    have hconverses := hconversing.converses hlive
    rw [hinbox, hqueue, List.append_nil, List.append_nil] at hconverses
    obtain ⟨hpublished, hwaits⟩ := hconverses.atRest houtbox
    refine ⟨fun index ↦ (hpublished index).trans ⟨?_, ?_⟩, fun s hs ↦ ?_⟩
    · rintro ⟨sm, hsm, htopic, hstate⟩
      obtain ⟨s, hs, rfl⟩ := List.mem_map.mp hsm
      exact ⟨s, hs, (hconversing.sane s hs).topic.symm.trans htopic, hstate⟩
    · rintro ⟨s, hs, htopic, hstate⟩
      exact ⟨s.sm, List.mem_map_of_mem hs, (hconversing.sane s hs).topic.trans htopic, hstate⟩
    · exact hwaits s.sm (List.mem_map_of_mem hs)

/-- **The connector and its venue stay in step** in every run in which each woken subscription finds
its channel unacquired and everybody is told of each connection once: every message that a
subscription is given is one that its machine expects, no request is refused, and when nothing is on
its way the venue publishes exactly what open machines have. -/
theorem run_inStep {actions : List Action}
    (hC : Along (step args) Orderly actions {}) (hrun : run args actions = some o) : o.InStep :=
  (run_agreed hC hrun).inStep

/-- A message on the channel of the trades. -/
def onTrades (type : Bytes) : Json.Value :=
  .object [(ascii "type", .string type), (ascii "channel", .string btcTrades.channel),
    (ascii "market", .string btcTrades.market)]

/-- A subscription is confirmed and told of a trade; another trade crosses its request to end. -/
def tradeOnce : List Action :=
  [.connector (.start btcTrades), .connector (.resume 0 none), .connector .reconnect,
    .connector (.connected true [btcTrades]), .connector .beginReader, .connector .beginWriter,
    .answer (onTrades (ascii "subscribed")), .connector (.written true),
    .publish (onTrades (ascii "update")), .receive, .receive,
    .connector (.stop 0), .connector (.resume 0 none), .publish (onTrades (ascii "update")),
    .connector .resumeWriter, .answer (onTrades (ascii "unsubscribed")), .receive, .receive,
    .connector (.resume 0 none), .connector (.written true)]

theorem run_inStep_tradeOnce : ∃ o, run {} tradeOnce = some o ∧
    o.connector.subs.map (fun s ↦ (s.pc, s.seen.length)) = [(.left, 5)] ∧ o.venue.outbox = [] ∧
      o.venue.published btcTrades = false ∧ o.InStep :=
  ⟨_, rfl, by decide, by decide, by decide, @run_inStep {} _ tradeOnce (by decide) rfl⟩

/-! ### Channels that nobody holds -/

/-- The venue does not publish the channel, and nothing about it is on its way. -/
structure Silent (o : Dialogue) (index : ChannelMarketPair) : Prop where
  published : o.venue.published index = false
  requests : ∀ frame ∈ o.venue.inbox ++ o.connector.writeQueue, frame.requestOn index = none
  replies : ∀ jframe ∈ o.venue.outbox, replyOn index jframe = none

/-- **A channel that nobody holds is silent** on a connection that is read: whoever leaves takes his
subscription with him, whatever is still to be read by others. -/
theorem run_silentUnlessHeld {actions : List Action} (hC : Along (step args) Orderly actions {})
    (hrun : run args actions = some o) (hlive : o.connector.phase.readerLive = true)
    {index : ChannelMarketPair}
    (hnobody : ∀ s ∈ o.connector.subs, s.topic = index → s.pc.isOwner = false) :
    o.Silent index := by
  obtain ⟨lost, -, hconversing⟩ := (run_agreed hC hrun).conversing
  obtain ⟨p, hp, hagrees⟩ := hconversing.converses hlive index
  have hidle : o.connector.machines.filterMap (·.phaseOn index) = [] := by
    refine List.filterMap_eq_nil_iff.mpr fun sm hsm ↦ ?_
    obtain ⟨s, hs, rfl⟩ := List.mem_map.mp hsm
    have hsane := hconversing.sane s hs
    unfold StateMachine.phaseOn
    split_ifs with htopic
    · exact hsane.idle (hnobody s hs (hsane.topic.symm.trans htopic))
    · rfl
  rw [hidle] at hp
  obtain rfl : p = none := Option.toList_eq_nil_iff.mp hp.symm
  have hrequests := congrArg Talk.requests hagrees
  refine ⟨congrArg Talk.granted hagrees, fun frame hframe ↦ ?_, ?_⟩
  · refine List.filterMap_eq_nil_iff.mp hrequests frame ?_
    rcases List.mem_append.mp hframe with hframe | hframe
    · exact List.mem_append_left _ (List.mem_append_left _ hframe)
    · exact List.mem_append_right _ hframe
  · exact List.filterMap_eq_nil_iff.mp (congrArg Talk.replies hagrees)

theorem run_silentUnlessHeld_tradeOnce : ∃ o, run {} tradeOnce = some o ∧
    o.connector.phase.readerLive = true ∧ o.Silent btcTrades :=
  ⟨_, rfl, rfl, @run_silentUnlessHeld {} _ tradeOnce (by decide) rfl rfl btcTrades (by decide)⟩

end Dialogue

end Ftx

end BoostConnector
