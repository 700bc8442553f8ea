import BoostConnector.Ftx.ClosedSubscription

/-!
# What the steps leave of a subscription

The connector's own steps are those that neither start nor stop anything. They keep the
subscriptions that there are, and what each of them was told (`own_keepsSubs`).
-/

namespace BoostConnector

namespace Ftx

namespace Pc

/-- `run` goes on as it does after a stop. -/
def isStopping : Pc → Bool
  | waiting .stopping | waiting .stopped | awaitingClosed | left => true
  | spawned | waiting .suspended | waiting .woken | awaitingStop => false

theorem isStopping_wake (pc : Pc) : pc.wake.isStopping = pc.isStopping := by
  rcases pc with _ | (_ | _ | _ | _) | _ | _ | _ <;> rfl

theorem wake_ne_suspended (pc : Pc) : pc.wake ≠ .waiting .suspended := by
  rcases pc with _ | (_ | _ | _ | _) | _ | _ | _ <;> simp [wake]

end Pc

namespace Subscription

/-- The stop latch is the same, a subscription that has left stays away, one that was told to stop
does not begin to wait without minding that, and only such a one begins to stop. -/
structure Stays (s t : Subscription) : Prop where
  topic : t.topic = s.topic
  stopLatch : t.stopLatch = s.stopLatch
  left : s.pc = .left → t.pc = .left
  suspended : t.pc = .waiting .suspended → s.pc = .waiting .suspended ∨ s.stopLatch = false
  stopping : t.pc.isStopping = true → s.pc.isStopping = true ∨ s.stopLatch = true

theorem Stays.refl (s : Subscription) : s.Stays s := ⟨rfl, rfl, id, .inl, .inl⟩

theorem Stays.trans {s t u : Subscription} (h : s.Stays t) (h' : t.Stays u) : s.Stays u where
  topic := h'.topic.trans h.topic
  stopLatch := h'.stopLatch.trans h.stopLatch
  left := h'.left ∘ h.left
  suspended hsuspended := by
    rcases h'.suspended hsuspended with hsuspended | hlatch
    · exact h.suspended hsuspended
    · exact .inr (h.stopLatch.symm.trans hlatch)
  stopping hstopping := by
    rcases h'.stopping hstopping with hstopping | hlatch
    · exact h.stopping hstopping
    · exact .inr (h.stopLatch.symm.trans hlatch)

end Subscription

namespace Connector

open Subscription (Stays)

variable {c d e : Connector} {i : ℕ} {s : Subscription} {wake : Option ℕ}

/-- The subscriptions are the same ones. -/
structure KeepsSubs (c d : Connector) : Prop where
  length : d.subs.length = c.subs.length
  stays : ∀ (i : ℕ) (s : Subscription), c.subs[i]? = some s → ∃ t, d.subs[i]? = some t ∧ s.Stays t

theorem KeepsSubs.of_eq (h : d.subs = c.subs) : KeepsSubs c d :=
  ⟨by rw [h], fun i s hi ↦ ⟨s, by rw [h, hi], .refl s⟩⟩

theorem KeepsSubs.trans (h : KeepsSubs c d) (h' : KeepsSubs d e) : KeepsSubs c e := by
  refine ⟨h'.length.trans h.length, fun i s hi ↦ ?_⟩
  obtain ⟨t, ht, hst⟩ := h.stays i s hi
  obtain ⟨u, hu, htu⟩ := h'.stays i t ht
  exact ⟨u, hu, hst.trans htu⟩

theorem KeepsSubs.set {t : Subscription} (hi : c.subs[i]? = some s)
    (hd : d.subs = c.subs.set i t) (h : s.Stays t) : KeepsSubs c d := by
  refine ⟨by rw [hd, List.length_set], fun j r hj ↦ ?_⟩
  rw [hd]
  by_cases hij : i = j
  · subst hij
    obtain rfl : s = r := Option.some_inj.mp (hi.symm.trans hj)
    exact ⟨t, getElem?_setSub hi t, h⟩
  · exact ⟨r, (List.getElem?_set_ne hij).trans hj, .refl r⟩

theorem handle_keepsSubs (c : Connector) (i : ℕ) (e : ChannelEvent) :
    KeepsSubs c (c.handle i e) := by
  rcases hi : c.subs[i]? with _ | s
  · rw [handle, hi]
    exact .of_eq rfl
  · rw [handle_of_sub hi]
    exact .set (t := s.given e) hi (performAll_subs _ _) ⟨rfl, rfl, id, .inl, .inl⟩

theorem tell_keepsSubs (c : Connector) (e : ChannelEvent) (index : ChannelMarketPair) :
    KeepsSubs c (c.tell e index) := by
  unfold tell
  split
  · split_ifs
    · split
      · exact handle_keepsSubs c _ e
      · exact .of_eq rfl
    · exact .of_eq rfl
  · exact .of_eq rfl

theorem broadcast_keepsSubs (c : Connector) (order : List ChannelMarketPair) (e : ChannelEvent) :
    KeepsSubs c (c.broadcast order e) := by
  induction order generalizing c with
  | nil => exact .of_eq rfl
  | cons index order ih => exact (tell_keepsSubs c e index).trans (ih _)

theorem cancelOne_keepsSubs {index : ChannelMarketPair} {node : ℕ}
    (h : c.cancelOne index node wake = some d) : KeepsSubs c d := by
  rcases cancelOne_cases h with ⟨-, rfl, -⟩ | ⟨j, s, -, hs, -, rfl⟩
  · exact .of_eq rfl
  · refine .set hs rfl ⟨rfl, rfl, fun hleft ↦ ?_, fun hsuspended ↦ ?_, fun hstopping ↦ .inl ?_⟩
    · simp only [hleft, Pc.wake]
    · exact absurd hsuspended s.pc.wake_ne_suspended
    · rwa [Pc.isStopping_wake] at hstopping

theorem releaseChannel_keepsSubs {index : ChannelMarketPair} {node : ℕ}
    (h : c.releaseChannel index node wake = some d) : KeepsSubs c d := by
  obtain ⟨cs, -, ⟨-, -, rfl⟩ | ⟨-, hcancel⟩⟩ := releaseChannel_cases h
  · exact .of_eq rfl
  · have hcancel := cancelOne_keepsSubs hcancel
    exact ⟨hcancel.length, hcancel.stays⟩

/-- A subscription that waits for nothing but its machine is not woken by its own release. -/
theorem releaseChannel_getElem?_self {index : ChannelMarketPair} {node : ℕ}
    (hi : c.subs[i]? = some s) (hpc : s.pc.phase.isOutstanding = false)
    (h : c.releaseChannel index node wake = some d) : d.subs[i]? = some s := by
  obtain ⟨cs, -, ⟨-, -, rfl⟩ | ⟨-, hcancel⟩⟩ := releaseChannel_cases h
  · exact hi
  · rcases cancelOne_cases hcancel with ⟨-, rfl, -⟩ | ⟨j, r, -, hr, hwaits, rfl⟩
    · exact hi
    · have hji : j ≠ i := by
        rintro rfl
        obtain rfl : s = r := Option.some_inj.mp (hi.symm.trans hr)
        exact absurd (hpc.symm.trans hwaits.2.2) (by decide)
      exact (List.getElem?_set_ne hji).trans hi

theorem awaitClosed_keepsSubs (hi : c.subs[i]? = some s) (hpc : s.pc = .awaitingClosed)
    (h : c.awaitClosed i s wake = some d) : KeepsSubs c d := by
  rcases awaitClosed_cases h with rfl | ⟨e, he, rfl⟩
  · exact .of_eq rfl
  · have hself := releaseChannel_getElem?_self hi (by rw [hpc]; rfl) he
    exact (releaseChannel_keepsSubs he).trans (.set hself rfl
      ⟨rfl, rfl, fun _ ↦ rfl, by simp, fun _ ↦ .inl (by rw [hpc]; rfl)⟩)

theorem closeMachine_keepsSubs (hi : c.subs[i]? = some s) (hpc : s.pc = .awaitingStop)
    (hlatch : s.stopLatch = true) (h : c.closeMachine i s wake = some d) : KeepsSubs c d := by
  refine .trans (.set (t := { s with sm := s.sm.close.1, pc := .awaitingClosed }) hi
    (performAll_subs _ _) ⟨rfl, rfl, fun hleft ↦ absurd (hpc.symm.trans hleft) (by decide), by simp,
      fun _ ↦ .inr hlatch⟩)
    (awaitClosed_keepsSubs (i := i) ?_ rfl h)
  rw [performAll_subs]
  exact getElem?_setSub hi _

theorem awaitStop_keepsSubs (hi : c.subs[i]? = some s) (hpc : s.pc = .awaitingStop)
    (h : c.awaitStop i s wake = some d) : KeepsSubs c d := by
  unfold awaitStop at h
  split_ifs at h with hlatch
  · exact closeMachine_keepsSubs hi hpc hlatch h
  · exact .of_eq (by rw [Option.some_inj.mp h])

theorem acquire_keepsSubs (hi : c.subs[i]? = some s) (hleft : s.pc ≠ .left) {node : ℕ}
    (h : c.acquire i { s with node } wake = some d) : KeepsSubs c d := by
  obtain ⟨cs, -, hstop⟩ := acquire_cases h
  have htaken : KeepsSubs c (c.taken i { s with node } cs) :=
    .set (t := { s with node, pc := .awaitingStop }) hi rfl
      ⟨rfl, rfl, fun h ↦ absurd h hleft, by simp, by simp [Pc.isStopping]⟩
  rcases hstop with ⟨-, hstop⟩ | ⟨-, hstop⟩
  · refine (htaken.trans (handle_keepsSubs _ i .connectionUp)).trans
      (awaitStop_keepsSubs ?_ rfl hstop)
    rw [handle_of_sub (getElem?_taken hi _ cs), performAll_subs]
    exact getElem?_setSub (getElem?_taken hi _ cs) _
  · exact htaken.trans (awaitStop_keepsSubs (getElem?_taken hi _ cs) rfl hstop)

theorem enter_keepsSubs (hi : c.subs[i]? = some s) (hpc : s.pc = .spawned)
    (h : c.enter i s wake = some d) : KeepsSubs c d := by
  have hleft : s.pc ≠ .left := fun hleft ↦ absurd (hpc.symm.trans hleft) (by decide)
  have hlocate : KeepsSubs c (c.locateChannel s.topic).2 := .of_eq (subs_locateChannel c _)
  have hi' : (c.locateChannel s.topic).2.subs[i]? = some s := by rw [subs_locateChannel, hi]
  simp only [enter] at h
  split_ifs at h
  · rename_i hlatch
    rw [Option.some_inj] at h
    subst h
    exact hlocate.trans (.set hi' rfl
      ⟨rfl, rfl, fun h ↦ absurd h hleft, by simp, fun _ ↦ .inr hlatch⟩)
  · rename_i hlatch
    rw [Option.some_inj] at h
    subst h
    exact hlocate.trans (.set hi' rfl ⟨rfl, rfl, fun h ↦ absurd h hleft,
      fun _ ↦ .inr (Bool.eq_false_iff.mpr hlatch), by simp [Pc.isStopping]⟩)
  · exact hlocate.trans (acquire_keepsSubs hi' hleft h)

theorem stop_latches (h : c.stop i = some d) : ∃ s t, c.subs[i]? = some s ∧ d = c.setSub i t ∧
    t.stopLatch = true ∧ t.pc ≠ .waiting .suspended ∧ (s.pc = .left → t.pc = .left) := by
  rw [stop, Option.bind_eq_bind, Option.bind_eq_some_iff] at h
  obtain ⟨s, hi, h⟩ := h
  split at h
  · rename_i hpc
    exact ⟨s, _, hi, (Option.some_inj.mp h).symm, rfl, by simp,
      fun hleft ↦ absurd (hpc.symm.trans hleft) (by decide)⟩
  · rename_i hpc
    exact ⟨s, _, hi, (Option.some_inj.mp h).symm, rfl, hpc, id⟩

theorem resume_keepsSubs (h : c.resume i wake = some d) : KeepsSubs c d := by
  obtain ⟨s, hi, ⟨hpc, h'⟩ | ⟨hpc, rfl⟩ | ⟨hpc, h'⟩ | ⟨hpc, h'⟩ | ⟨hpc, h'⟩⟩ := resume_cases h
  · exact enter_keepsSubs hi hpc h'
  · exact .set hi rfl ⟨rfl, rfl, fun _ ↦ rfl, by simp, fun _ ↦ .inl (by rw [hpc]; rfl)⟩
  · have hleft : s.pc ≠ .left := fun hleft ↦ absurd (hpc.symm.trans hleft) (by decide)
    exact @acquire_keepsSubs c d i s wake hi hleft s.node h'
  · refine closeMachine_keepsSubs hi hpc ?_ h'
    -- it went on because its latch was set
    by_contra hlatch
    simp [resume, hi, hpc, hlatch] at h
  · exact awaitClosed_keepsSubs hi hpc h'

end Connector

/-- The connector goes on by itself: nothing is started or stopped. -/
def Action.isOwn : Action → Bool
  | .start _ | .stop _ | .requestStop => false
  | _ => true

open Connector in
/-- **The connector's own steps** keep the subscriptions and the request to stop. -/
theorem own_keepsSubs {args : Args} {a : Action} {c d : Connector} (ha : a.isOwn = true)
    (h : step args a c = some d) : KeepsSubs c d ∧ d.stopRequested = c.stopRequested := by
  by_cases hconnection : a.IsConnection
  · obtain ⟨-, u, e, hu, hd⟩ := connection_broadcast hconnection h
    have htold := (KeepsSubs.of_eq hu.subs).trans (broadcast_keepsSubs u (a.told c) e)
    refine ⟨htold.trans (.of_eq hd.subs), ?_⟩
    cases connection_move hconnection h with
    | drop => exact (perform_undisturbed c .drop).stopRequested
    | requestStop => exact absurd ha (by decide)
    | @abandoned ok order _ _ _ =>
      exact (notifyConnectionState_undisturbed (c.opened args ok) .up order).stopRequested
    | @announced ok order _ _ _ =>
      exact (notifyConnectionState_undisturbed (c.opened args ok) .up order).stopRequested
    | readMessage _ _ => exact (handleMessage_undisturbed c _).stopRequested
    | readError _ _ _ => exact (broadcast_undisturbed c _ _).stopRequested
    | joined _ _ _ => exact (notifyConnectionState_undisturbed c .down _).stopRequested
    | _ => rfl
  · refine ⟨?_, (keepsConnection hconnection h).stopRequested⟩
    cases a with
    | start topic => exact absurd ha (by simp [Action.isOwn])
    | stop i => exact absurd ha (by simp [Action.isOwn])
    | settle i =>
      obtain ⟨s, hi, hpc, rfl⟩ := settle_cases h
      exact .set hi rfl ⟨rfl, rfl, fun hleft ↦ absurd (hpc.symm.trans hleft) (by decide), by simp,
        fun _ ↦ .inl (by rw [hpc]; rfl)⟩
    | resume i wake => exact resume_keepsSubs h
    | _ => exact absurd trivial hconnection

end Ftx

end BoostConnector
