import BoostConnector.Ftx.ConnectionMove

/-!
# What a step of a subscription can do

`ConnectionMove` says how a step of the connection can end; `SubscriptionMove` does the same for the
steps of the subscriptions. One step of `run` may locate its channel, take it, close its state
machine and release the channel again before it suspends, so such a step is a path of moves
(`subscription_path`), and an invariant of the moves is an invariant of the steps.
-/

namespace BoostConnector

namespace Ftx

open Relation (ReflTransGen)

/-- `run` has not taken the channel yet. -/
def Pc.isBefore : Pc → Bool
  | spawned | waiting _ => true
  | awaitingStop | awaitingClosed | left => false

theorem Pc.isBefore_wake (pc : Pc) : pc.wake.isBefore = pc.isBefore := by
  cases pc with
  | waiting w => cases w <;> rfl
  | _ => rfl

/-- Each constructor is one thing that a step of a subscription can do. -/
inductive SubscriptionMove (c : Connector) : Connector → Prop
  | start (topic : ChannelMarketPair) :
      SubscriptionMove c { c with subs := c.subs ++ [.new topic] }
  | locate (index : ChannelMarketPair) : SubscriptionMove c (c.locateChannel index).2
  /-- A subscription goes to another place of its `run`, or its stop latch is set. -/
  | moveOn {i : ℕ} {s : Subscription} (hi : c.subs[i]? = some s) (pc : Pc) (node : ℕ)
      (stopLatch : Bool) (hbefore : pc.isBefore = true → s.pc.isBefore = true) :
      SubscriptionMove c (c.setSub i { s with pc, node, stopLatch })
  | take {i : ℕ} {s : Subscription} (hi : c.subs[i]? = some s) (hbefore : s.pc.isBefore = true)
      (node : ℕ) (cs : ChannelState) (hdown : c.isUp = false) :
      SubscriptionMove c (c.taken i { s with node } cs)
  | takeUp {i : ℕ} {s : Subscription} (hi : c.subs[i]? = some s) (hbefore : s.pc.isBefore = true)
      (node : ℕ) (cs : ChannelState) (hup : c.isUp = true) :
      SubscriptionMove c ((c.taken i { s with node } cs).handle i .connectionUp)
  | close {i : ℕ} {s : Subscription} (hi : c.subs[i]? = some s) (hpc : s.pc = .awaitingStop) :
      SubscriptionMove c
        ((c.setSub i { s with sm := s.sm.close.1, pc := .awaitingClosed }).performAll s.sm.close.2)
  | checkRelease (cs : ChannelState) : SubscriptionMove c (c.checkRelease cs)
  | unacquire (index : ChannelMarketPair) (cs : ChannelState) (hcs : cs.acquired = false) :
      SubscriptionMove c (c.setChannel index cs)
  | erase (index : ChannelMarketPair) :
      SubscriptionMove c { c with channelStates := c.channelStates.erase index }

namespace Connector

variable {c d : Connector} {i : ℕ} {s : Subscription} {wake : Option ℕ}

theorem getElem?_setSub (hi : c.subs[i]? = some s) (t : Subscription) :
    (c.setSub i t).subs[i]? = some t :=
  List.getElem?_set_self (List.getElem?_eq_some_iff.mp hi).1

theorem cancelOne_path {index : ChannelMarketPair} {node : ℕ}
    (h : c.cancelOne index node wake = some d) : ReflTransGen SubscriptionMove c d := by
  rcases cancelOne_cases h with ⟨-, rfl, -⟩ | ⟨j, s, -, hs, -, rfl⟩
  · exact .refl
  · exact .single (.moveOn hs s.pc.wake s.node s.stopLatch fun hbefore ↦ by
      rwa [Pc.isBefore_wake] at hbefore)

/-- The subscription that releases its channel may be woken by that, and nothing else. -/
theorem releaseChannel_path {index : ChannelMarketPair} {node : ℕ}
    (h : c.releaseChannel index node wake = some d) : ReflTransGen SubscriptionMove c d := by
  obtain ⟨cs, -, ⟨-, -, rfl⟩ | ⟨-, hcancel⟩⟩ := releaseChannel_cases h
  · exact .tail (.single (.checkRelease cs)) (.erase index)
  · exact .trans (.tail (.single (.checkRelease cs)) (.unacquire index _ rfl))
      (cancelOne_path hcancel)

theorem releaseChannel_getElem? {index : ChannelMarketPair} {node : ℕ}
    (hi : c.subs[i]? = some s) (h : c.releaseChannel index node wake = some d) :
    ∃ pc, d.subs[i]? = some { s with pc } := by
  obtain ⟨cs, -, ⟨-, -, rfl⟩ | ⟨-, hcancel⟩⟩ := releaseChannel_cases h
  · exact ⟨s.pc, hi⟩
  · rcases cancelOne_cases hcancel with ⟨-, rfl, -⟩ | ⟨j, r, -, hr, -, rfl⟩
    · exact ⟨s.pc, hi⟩
    · by_cases hji : j = i
      · subst hji
        obtain rfl : s = r := Option.some_inj.mp (hi.symm.trans hr)
        exact ⟨s.pc.wake, getElem?_setSub hr _⟩
      · exact ⟨s.pc, (List.getElem?_set_ne hji).trans hi⟩

theorem awaitClosed_path (hi : c.subs[i]? = some s) (h : c.awaitClosed i s wake = some d) :
    ReflTransGen SubscriptionMove c d := by
  rcases awaitClosed_cases h with rfl | ⟨e, he, rfl⟩
  · exact .refl
  · obtain ⟨pc, hpc⟩ := releaseChannel_getElem? hi he
    exact .tail (releaseChannel_path he)
      (.moveOn hpc .left s.node s.stopLatch fun hbefore ↦ absurd hbefore (by decide))

theorem closeMachine_path (hi : c.subs[i]? = some s) (hpc : s.pc = .awaitingStop)
    (h : c.closeMachine i s wake = some d) : ReflTransGen SubscriptionMove c d := by
  refine .head (.close hi hpc) (awaitClosed_path (i := i) ?_ h)
  rw [performAll_subs]
  exact getElem?_setSub hi _

theorem awaitStop_path (hi : c.subs[i]? = some s) (hpc : s.pc = .awaitingStop)
    (h : c.awaitStop i s wake = some d) : ReflTransGen SubscriptionMove c d := by
  rcases awaitStop_cases h with rfl | hclose
  · exact .refl
  · exact closeMachine_path hi hpc hclose

theorem getElem?_taken {t : Subscription} (hi : c.subs[i]? = some t) (s : Subscription)
    (cs : ChannelState) : (c.taken i s cs).subs[i]? = some { s with pc := .awaitingStop } :=
  getElem?_setSub (c := c.setChannel s.topic _) hi _

theorem acquire_path (hi : c.subs[i]? = some s) (hbefore : s.pc.isBefore = true) {node : ℕ}
    (h : c.acquire i { s with node } wake = some d) : ReflTransGen SubscriptionMove c d := by
  obtain ⟨cs, -, ⟨hup, hstop⟩ | ⟨hdown, hstop⟩⟩ := acquire_cases h
  · refine .head (.takeUp hi hbefore node cs hup) (awaitStop_path ?_ rfl hstop)
    rw [handle_of_sub (getElem?_taken hi _ cs), performAll_subs]
    exact getElem?_setSub (getElem?_taken hi _ cs) _
  · exact .head (.take hi hbefore node cs hdown)
      (awaitStop_path (getElem?_taken hi _ cs) rfl hstop)

theorem subs_locateChannel (c : Connector) (index : ChannelMarketPair) :
    (c.locateChannel index).2.subs = c.subs := by
  unfold locateChannel
  split <;> rfl

theorem enter_path (hi : c.subs[i]? = some s) (hpc : s.pc = .spawned)
    (h : c.enter i s wake = some d) : ReflTransGen SubscriptionMove c d := by
  have hbefore : s.pc.isBefore = true := by
    rw [hpc]
    rfl
  have hlocated : (c.locateChannel s.topic).2.subs[i]? = some s := by
    rw [subs_locateChannel]
    exact hi
  refine .head (.locate s.topic) ?_
  unfold enter at h
  dsimp only at h
  split_ifs at h with hacq hwake hlatch
  · exact Option.some_inj.mp h ▸ .single (.moveOn hlocated _ _ _ fun _ ↦ hbefore)
  · exact Option.some_inj.mp h ▸ .single (.moveOn hlocated _ _ _ fun _ ↦ hbefore)
  · exact acquire_path hlocated hbefore h

theorem resume_path (h : c.resume i wake = some d) : ReflTransGen SubscriptionMove c d := by
  obtain ⟨s, hi, ⟨hpc, henter⟩ | ⟨hpc, rfl⟩ | ⟨hpc, hacquire⟩ | ⟨hpc, hclose⟩ | ⟨hpc, hclosed⟩⟩ :=
    resume_cases h
  · exact enter_path hi hpc henter
  · exact .single (.moveOn hi .left s.node s.stopLatch fun hbefore ↦ absurd hbefore (by decide))
  · refine acquire_path hi ?_ hacquire
    rw [hpc]
    rfl
  · exact closeMachine_path hi hpc hclose
  · exact awaitClosed_path hi hclosed

end Connector

/-- **What a step of a subscription can do**: it is a path of moves. -/
theorem subscription_path {args : Args} {a : Action} {c d : Connector} (ha : ¬a.IsConnection)
    (h : step args a c = some d) : ReflTransGen SubscriptionMove c d := by
  cases a with
  | start topic => exact Option.some_inj.mp h ▸ .single (.start topic)
  | stop i =>
    obtain ⟨s, hi, ⟨hpc, rfl⟩ | rfl⟩ := Connector.stop_cases h
    · refine .single (.moveOn hi (.waiting .stopping) s.node true fun _ ↦ ?_)
      rw [hpc]
      rfl
    · exact .single (.moveOn hi s.pc s.node true id)
  | settle i =>
    obtain ⟨s, hi, hpc, rfl⟩ := Connector.settle_cases h
    refine .single (.moveOn hi (.waiting .stopped) s.node s.stopLatch fun _ ↦ ?_)
    rw [hpc]
    rfl
  | resume i wake => exact Connector.resume_path h
  | _ => exact absurd trivial ha

/-- An invariant of the moves is an invariant of the steps of the subscriptions. -/
theorem subscription_invariant {args : Args} {a : Action} {c d : Connector} {I : Connector → Prop}
    (hmove : ∀ {c d}, I c → SubscriptionMove c d → I d) (ha : ¬a.IsConnection) (hc : I c)
    (h : step args a c = some d) : I d := by
  have hpath := subscription_path ha h
  clear h
  induction hpath with
  | refl => exact hc
  | tail _ hlast ih => exact hmove ih hlast

/-! ## What the steps of a subscription leave alone -/

theorem Connector.locateChannel_keepsConnection (c : Connector) (index : ChannelMarketPair) :
    Connector.KeepsConnection c (c.locateChannel index).2 := by
  unfold locateChannel
  split
  · exact .setChannel c _ _
  · exact { KeepsConnection.refl c with }

theorem SubscriptionMove.keepsConnection {c d : Connector} (h : SubscriptionMove c d) :
    Connector.KeepsConnection c d := by
  have htaken (i : ℕ) (s : Subscription) (cs : ChannelState) :
      Connector.KeepsConnection c (c.taken i s cs) :=
    (Connector.KeepsConnection.setChannel c s.topic _).trans (.setSub _ i _)
  cases h with
  | start topic => exact { Connector.KeepsConnection.refl c with }
  | locate index => exact Connector.locateChannel_keepsConnection c index
  | moveOn hi pc node stopLatch hbefore => exact .setSub c _ _
  | take hi hbefore node cs hdown => exact htaken _ _ cs
  | takeUp hi hbefore node cs hup =>
    exact (htaken _ _ cs).trans (Connector.handle_undisturbed _ _ _).keepsConnection
  | close hi hpc =>
    exact (Connector.KeepsConnection.setSub c _ _).trans
      (Connector.performAll_undisturbed _ _).keepsConnection
  | checkRelease cs => exact Connector.checkRelease_keepsConnection c cs
  | unacquire index cs hcs => exact .setChannel c index cs
  | erase index => exact { Connector.KeepsConnection.refl c with }

/-- The steps of the subscriptions do not touch the connection. -/
theorem keepsConnection {args : Args} {a : Action} {c d : Connector} (ha : ¬a.IsConnection)
    (h : step args a c = some d) : Connector.KeepsConnection c d :=
  subscription_invariant (fun hI hmove ↦ hI.trans hmove.keepsConnection) ha (.refl c) h

end Ftx

end BoostConnector
