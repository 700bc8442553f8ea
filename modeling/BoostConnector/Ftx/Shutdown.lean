import BoostConnector.Ftx.SubscriptionProgress

/-!
# Subscriptions that were told to stop leave

In `VenueRest` the subscriptions stay where they are while the connector and its venue come to rest.
Here they go on too, in any order with the rest. What they send on the way is paid for by how far
they come (`toll`), so together they still come to an end (`working_step`). Where they do, nothing
keeps a subscription that was told to stop, unless it was woken and another one, which was not told
to stop, took the channel before it could (`finished_of_stuck`).

Only orderly steps are taken, so the woken subscription waits until the channel is free.
-/

namespace BoostConnector

namespace Ftx

open Transition

namespace Connector

variable {c d : Connector} {s : Subscription}

/-- A subscription that uses its channel finds the entry. -/
theorem element_of_usesChannel (h : Handover.Counted c.view) (hs : s ∈ c.subs)
    (huses : s.pc.usesChannel = true) : ∃ cs, c.element s.topic s.node = some cs := by
  have hparty : s.party ∈ c.view.parties := List.mem_map_of_mem hs
  have hholds : s.party.Holds s.topic := ⟨rfl, s.pc.isInside_phase.trans huses⟩
  rcases hslot : c.view.slots s.topic with _ | e
  · exact absurd hholds (h.not_holds hslot hparty)
  · obtain ⟨cs, hlookup, rfl⟩ := slots_view_eq_some hslot
    refine ⟨cs, ?_⟩
    rw [element, hlookup]
    exact Option.filter_some_pos (decide_eq_true (h.node hslot hparty hholds).symm)

theorem step_counted {args : Args} {a : Action} (h : Handover.Counted c.view)
    (hd : step args a c = some d) : Handover.Counted d.view :=
  Handover.path_invariant (D := fun _ _ ↦ True) (fun h _ hstep ↦ Handover.step_counted h hstep) h
    (step_path (fun _ _ _ _ _ ↦ trivial) hd)

/-- No subscription that was told to stop waits without minding that, and no other one stops. -/
structure Minds (c : Connector) : Prop where
  suspended : ∀ s ∈ c.subs, s.stopLatch = true → s.pc ≠ .waiting .suspended
  stopping : ∀ s ∈ c.subs, s.pc.isStopping = true → s.stopLatch = true

theorem minds_fresh : Minds {} := ⟨List.forall_mem_nil _, List.forall_mem_nil _⟩

theorem KeepsSubs.exists_mem {t : Subscription} (h : KeepsSubs c d) (ht : t ∈ d.subs) :
    ∃ s ∈ c.subs, s.Stays t := by
  obtain ⟨i, hi⟩ := List.mem_iff_getElem?.mp ht
  have hlt : i < c.subs.length := h.length ▸ (List.getElem?_eq_some_iff.mp hi).1
  obtain ⟨t', ht', hstays⟩ := h.stays i _ (List.getElem?_eq_getElem hlt)
  obtain rfl : t = t' := Option.some_inj.mp (hi.symm.trans ht')
  exact ⟨_, List.getElem_mem hlt, hstays⟩

theorem KeepsSubs.minds (h : KeepsSubs c d) (hc : c.Minds) : d.Minds := by
  constructor
  · intro t ht hlatch hsuspended
    obtain ⟨s, hs, hstays⟩ := h.exists_mem ht
    rw [hstays.stopLatch] at hlatch
    rcases hstays.suspended hsuspended with hpc | hnot
    · exact hc.suspended s hs hlatch hpc
    · exact absurd (hlatch.symm.trans hnot) (by decide)
  · intro t ht hstopping
    obtain ⟨s, hs, hstays⟩ := h.exists_mem ht
    rcases hstays.stopping hstopping with hstopping | hlatch
    · exact hstays.stopLatch.trans (hc.stopping s hs hstopping)
    · exact hstays.stopLatch.trans hlatch

theorem step_minds {args : Args} {a : Action} (hc : c.Minds) (h : step args a c = some d) :
    d.Minds := by
  by_cases ha : a.isOwn = true
  · exact (own_keepsSubs ha h).1.minds hc
  · unfold Action.isOwn at ha
    split at ha
    · rw [step, Option.some_inj] at h
      subst h
      constructor <;> intro s hs
      all_goals rcases List.mem_append.mp hs with hs | hs
      · exact hc.suspended s hs
      · rw [List.mem_singleton.mp hs]
        exact fun hlatch ↦ absurd hlatch Bool.false_ne_true
      · exact hc.stopping s hs
      · rw [List.mem_singleton.mp hs]
        exact fun hstopping ↦ absurd hstopping Bool.false_ne_true
    · obtain ⟨s, t, -, rfl, hlatch, hpc, -⟩ := stop_latches h
      constructor <;> intro r hr
      all_goals rcases List.mem_or_eq_of_mem_set hr with hr | rfl
      · exact hc.suspended r hr
      · exact fun _ ↦ hpc
      · exact hc.stopping r hr
      · exact fun _ ↦ hlatch
    · rw [step, Option.some_inj] at h
      subst h
      exact ⟨hc.suspended, hc.stopping⟩
    · exact absurd rfl ha

end Connector

namespace Dialogue

variable {args : Args} {o o' : Dialogue}

/-! ## Everybody goes on -/

/-- The subscriptions go on as well. -/
def Action.proceeds : Action → Bool
  | .connector (.settle _) | .connector (.resume _ _) => true
  | a => a.settles

theorem Action.proceeds_cases {a : Action} (ha : a.proceeds = true) :
    a.settles = true ∨ ∃ b, a = .connector b ∧
      ((∃ i, b = .settle i) ∨ ∃ i wake, b = .resume i wake) := by
  unfold proceeds at ha
  split at ha
  · exact .inr ⟨_, rfl, .inl ⟨_, rfl⟩⟩
  · exact .inr ⟨_, rfl, .inr ⟨_, _, rfl⟩⟩
  · exact .inl ha

/-- None of these steps starts or stops a subscription. -/
theorem keepsSubs_of_proceeds {a : Action} (ha : a.proceeds = true)
    (hstep : step args a o = some o') : Connector.KeepsSubs o.connector o'.connector := by
  cases step_move hstep with
  | @connector b d htext hd =>
    have hb : b.isOwn = true := by
      rcases b <;> first | rfl | exact absurd ha (by simp [Action.proceeds, Action.settles])
    exact (own_keepsSubs hb hd).1
  | receive houtbox hd => exact (own_keepsSubs rfl hd).1
  | answer | skip => exact .of_eq rfl
  | publish => exact absurd ha (by simp [Action.proceeds, Action.settles])

/-- What the subscriptions have before them, and what is on its way. -/
def effort (o : Dialogue) : ℕ := 16 * o.connector.stages + o.load

theorem effort_online {t : Tasks} (hphase : o.connector.phase = .online t) :
    o.effort = o.connector.toll + 2 * o.venue.inbox.length + o.venue.outbox.length + t.work := by
  rw [effort, load_online hphase, Connector.toll]
  omega

/-- The connector and its venue go on, and nobody waits in vain. -/
structure Working (o : Dialogue) : Prop where
  lively : o.Lively
  counted : Handover.Counted o.connector.view
  minds : o.connector.Minds

/-- A subscription goes on; it may wake the writer. -/
theorem Lively.subscription {b : Ftx.Action} {d : Connector} (h : o.Lively)
    (hb : ¬b.IsConnection) (hC : Orderly (.connector b) o)
    (hstep : step args (.connector b) o = some ⟨d, o.venue⟩)
    (hd : Ftx.step args b o.connector = some d) (htoll : d.toll + 5 ≤ o.connector.toll) :
    Lively ⟨d, o.venue⟩ ∧ effort ⟨d, o.venue⟩ < o.effort := by
  obtain ⟨t, hphase, hruns⟩ := h.online
  have hkeeps := keepsConnection hb hd
  obtain ⟨t', ht', hreader, hcancelled, hwriter⟩ := hkeeps.phase_online hphase
  -- a request wakes the writer at most
  have hwork : t'.work ≤ t.work + 1 := by
    have hle := t'.writer.work_le_one
    simp only [Tasks.work, hreader]
    omega
  refine ⟨⟨step_agreed h.agreed hC hstep, h.served.step hstep, hkeeps.stopRequested.trans h.stop,
    t', ht', hcancelled.trans hruns.cancelled, ?_, hwriter.trans hruns.writer⟩, ?_⟩
  · rw [hreader]
    exact hruns.reader
  · rw [effort_online hphase, effort_online (o := ⟨d, o.venue⟩) ht']
    dsimp only
    omega

/-- **Every such step leaves less to do.** -/
theorem working_step {a : Action} (h : o.Working) (hC : Orderly a o) (ha : a.proceeds = true)
    (hstep : step args a o = some o') : o'.Working ∧ o'.effort < o.effort := by
  have hminds := (keepsSubs_of_proceeds ha hstep).minds h.minds
  have hcounted : Handover.Counted o'.connector.view :=
    connector_invariant (I := fun c ↦ Handover.Counted c.view) Connector.step_counted h.counted
      hstep
  rcases Action.proceeds_cases ha with hsettles | ⟨b, rfl, hb⟩
  · obtain ⟨hlively, hless, hpcs⟩ := lively_step h.lively hsettles hstep
    refine ⟨⟨hlively, hcounted, hminds⟩, ?_⟩
    rw [effort, effort, Connector.stages_of_pcs hpcs]
    omega
  · have hconnection : ¬b.IsConnection := by
      rcases hb with ⟨i, rfl⟩ | ⟨i, wake, rfl⟩ <;> exact id
    have hfollow {d : Connector} : o.venue.follow b d = o.venue := by
      rcases hb with ⟨i, rfl⟩ | ⟨i, wake, rfl⟩ <;>
        simp [Venue.follow, Ftx.Action.isWriter]
    have hstep' := hstep
    rw [step_connector (by rcases hb with ⟨i, rfl⟩ | ⟨i, wake, rfl⟩ <;> simp),
      Option.map_eq_some_iff] at hstep'
    obtain ⟨d, hd, rfl⟩ := hstep'
    rw [hfollow] at hstep hcounted ⊢
    have htoll : d.toll + 5 ≤ o.connector.toll := by
      rcases hb with ⟨i, rfl⟩ | ⟨i, wake, rfl⟩
      · exact Connector.settle_toll hd
      · exact Connector.resume_toll hd
    obtain ⟨hlively, hless⟩ := h.lively.subscription hconnection hC hstep hd htoll
    exact ⟨⟨hlively, hcounted, hminds⟩, hless⟩

/-! ## Where nobody can -/

theorem orderly_settle (o : Dialogue) (i : ℕ) : Orderly (.connector (.settle i)) o := by
  rintro b hb
  obtain rfl : .settle i = b := Option.some_inj.mp hb
  simp [TakesFree, InformsAll, Ftx.Action.resumed?, Ftx.Action.startsRead]

/-- The wait of a subscription whose stop came first is over. -/
theorem not_stopping_of_stuck {C : Action → Dialogue → Prop} [∀ a o, Decidable (C a o)]
    (hC : ∀ i, C (.connector (.settle i)) o)
    (hstuck : Stuck (guarded C (step args)) Action.proceeds o) {s : Subscription}
    (hs : s ∈ o.connector.subs) : s.pc ≠ .waiting .stopping := by
  intro hpc
  obtain ⟨i, hi⟩ := List.mem_iff_getElem?.mp hs
  have hnone := stuck_guarded.mp hstuck _ rfl (hC i)
  simp [step, Ftx.step, Connector.settle, hi, hpc] at hnone

namespace Working

variable {s : Subscription}

theorem rests (h : o.Working) (hstuck : Stuck (guarded Orderly (step args)) Action.proceeds o) :
    o.Rests := by
  refine @rests_of_stuck args o h.lively fun a ha ↦ ?_
  refine stuck_guarded.mp hstuck a ?_ (h.lively.orderly ha)
  unfold Action.proceeds
  split
  · rfl
  · rfl
  · exact ha

/-- A subscription that is ready could go on, unless it was woken and finds the channel taken. -/
theorem not_ready (h : o.Working) (hstuck : Stuck (guarded Orderly (step args)) Action.proceeds o)
    (hs : s ∈ o.connector.subs) (hfree : s.pc = .waiting .woken →
      ∀ cs ∈ o.connector.channelStates.lookup s.topic, cs.acquired = false) :
    s.ready = false := by
  by_contra hready
  obtain ⟨i, hi⟩ := List.mem_iff_getElem?.mp hs
  obtain ⟨wake, d, hd⟩ := Connector.resume_enabled hi (Bool.of_not_eq_false hready)
    (Connector.element_of_usesChannel h.counted hs)
  obtain ⟨t, hphase, hruns⟩ := h.lively.online
  -- the step is an orderly one: the channel is free if it is taken, and the reader runs
  have hC : Orderly (.connector (.resume i wake)) o := by
    rintro b hb
    obtain rfl : .resume i wake = b := Option.some_inj.mp hb
    refine ⟨?_, fun _ ↦ ⟨by simp [Ftx.Action.startsRead], fun _ _ _ _ _ _ ↦ ?_⟩⟩
    · rintro r hr s' hs' hpc
      obtain rfl : (i, wake) = r := Option.some_inj.mp hr
      obtain rfl : s = s' := Option.some_inj.mp (hi.symm.trans hs')
      exact hfree hpc
    · simp [hphase, RunPhase.readerLive, RunPhase.tasks?, hruns.reader]
  have hnone := stuck_guarded.mp hstuck _ rfl hC
  rw [step_connector (by simp), Option.map_eq_none_iff] at hnone
  exact absurd (hnone.symm.trans hd) (by simp)

/-- One that has called `close()` is not kept. -/
theorem not_awaitingClosed (h : o.Working)
    (hstuck : Stuck (guarded Orderly (step args)) Action.proceeds o)
    (hs : s ∈ o.connector.subs) : s.pc ≠ .awaitingClosed := by
  intro hpc
  obtain ⟨lost, -, hconversing⟩ := h.lively.agreed.conversing
  have hclosed := (h.rests hstuck).awaitingClosed s hs hpc
  have hlatch := (hconversing.sane s hs).latch.mpr hclosed
  have hnot := h.not_ready hstuck hs fun hwoken ↦ absurd (hpc.symm.trans hwoken) (by decide)
  simp [Subscription.ready, hpc, hlatch] at hnot

/-- Whoever has a channel was not told to stop. -/
theorem exists_owner (h : o.Working)
    (hstuck : Stuck (guarded Orderly (step args)) Action.proceeds o) {index : ChannelMarketPair}
    {cs : ChannelState} (hlookup : o.connector.channelStates.lookup index = some cs)
    (hacq : cs.acquired = true) :
    ∃ r ∈ o.connector.subs, r.topic = index ∧ r.pc = .awaitingStop ∧ r.stopLatch = false := by
  obtain ⟨j, -, p, hp, htopic, howning⟩ := h.lively.agreed.sound.manned index cs.slot
    (Connector.view_slots hlookup) hacq
  obtain ⟨r, hr, rfl⟩ := Connector.parties_view_eq_some hp
  have hr := List.mem_of_getElem? hr
  rcases Pc.phase_eq_owning howning with hpc | hpc
  · refine ⟨r, hr, htopic, hpc, ?_⟩
    have hnot := h.not_ready hstuck hr fun hwoken ↦ absurd (hpc.symm.trans hwoken) (by decide)
    rwa [Subscription.ready, hpc] at hnot
  · exact absurd hpc (h.not_awaitingClosed hstuck hr)

/-- One that was woken finds the channel taken. -/
theorem exists_owner_of_woken (h : o.Working)
    (hstuck : Stuck (guarded Orderly (step args)) Action.proceeds o) (hs : s ∈ o.connector.subs)
    (hpc : s.pc = .waiting .woken) :
    ∃ r ∈ o.connector.subs, r.topic = s.topic ∧ r.pc = .awaitingStop ∧ r.stopLatch = false := by
  by_contra hnone
  have hnot := h.not_ready hstuck hs fun _ cs hcs ↦ ?_
  · simp [Subscription.ready, hpc] at hnot
  · by_contra hacq
    exact hnone (h.exists_owner hstuck hcs (Bool.of_not_eq_false hacq))

end Working

/-- Nothing is on its way, and a subscription that was told to stop has left, unless it has to wait
for the end of one that was not. -/
structure Finished (o : Dialogue) : Prop where
  rests : o.Rests
  stopped : ∀ s ∈ o.connector.subs, s.stopLatch = true → s.pc = .left ∨
    s.pc = .waiting .woken ∧ ∃ r ∈ o.connector.subs,
      r.topic = s.topic ∧ r.pc = .awaitingStop ∧ r.stopLatch = false

/-- **Where nobody can go on, they have finished.** -/
theorem finished_of_stuck (h : o.Working)
    (hstuck : Stuck (guarded Orderly (step args)) Action.proceeds o) : o.Finished := by
  refine ⟨h.rests hstuck, fun s hs hlatch ↦ ?_⟩
  by_cases hwoken : s.pc = .waiting .woken
  · exact .inr ⟨hwoken, h.exists_owner_of_woken hstuck hs hwoken⟩
  · have hnot := h.not_ready hstuck hs fun hpc ↦ absurd hpc hwoken
    have hminds := h.minds.suspended s hs hlatch
    have hsettled := not_stopping_of_stuck (orderly_settle o) hstuck hs
    have hclosed := h.not_awaitingClosed hstuck hs
    -- every other place of `run` is one from which it could go on
    rcases hpc : s.pc with _ | (_ | _ | _ | _) | _ | _ | _ <;>
      simp [Subscription.ready, hpc, hlatch] at hnot hminds hwoken hsettled hclosed ⊢

/-- Every subscription has left, and nothing is published. -/
structure Over (o : Dialogue) : Prop where
  left : ∀ s ∈ o.connector.subs, s.pc = .left
  published : ∀ index, o.venue.published index = false

/-- A subscription that was not told to stop is all that can keep another one. -/
theorem Finished.over (h : o.Finished)
    (hstopped : ∀ s ∈ o.connector.subs, s.stopLatch = true) : o.Over := by
  have hleft {s : Subscription} (hs : s ∈ o.connector.subs) : s.pc = .left := by
    rcases h.stopped s hs (hstopped s hs) with hpc | ⟨-, r, hr, -, -, hlatch⟩
    · exact hpc
    · exact absurd (hlatch.symm.trans (hstopped r hr)) (by decide)
  refine ⟨fun s hs ↦ hleft hs, fun index ↦ ?_⟩
  by_contra hpublished
  obtain ⟨s, hs, -, hpc⟩ := (h.rests.published index).mp (Bool.of_not_eq_false hpublished)
  exact absurd (hpc.symm.trans (hleft hs)) (by decide)

theorem working_of_run {actions : List Action} {t : Tasks}
    (hC : Along (step args) Orderly actions {}) (hrun : run args actions = some o)
    (hphase : o.connector.phase = .online t) (hruns : t.Runs)
    (hstop : o.connector.stopRequested = false) : o.Working := by
  have hcounted : Handover.Counted o.connector.view :=
    run_connector (I := fun c ↦ Handover.Counted c.view) Connector.step_counted
      Handover.counted_initial hrun
  have hminds : o.connector.Minds :=
    run_connector Connector.step_minds Connector.minds_fresh hrun
  exact ⟨⟨run_agreed hC hrun, run_served hrun, hstop, t, hphase, hruns⟩, hcounted, hminds⟩

/-- **Every subscription that was told to stop leaves.** Take any state of an orderly run whose
connection is read and written and not about to be stopped. From there the subscriptions, the
connector and the venue can go on by themselves, in any orderly way, only so long. Wherever none of
them can, a subscription that was told to stop has left, or it was woken and waits for the end of
one that was not. If all were told, all have left, and the venue publishes nothing. -/
theorem run_shutsDown {actions : List Action} {t : Tasks}
    (hC : Along (step args) Orderly actions {}) (hrun : run args actions = some o)
    (hphase : o.connector.phase = .online t) (hruns : t.Runs)
    (hstop : o.connector.stopRequested = false) :
    (∀ more o', (∀ a ∈ more, a.proceeds = true) → Along (step args) Orderly more o →
      exec (step args) more o = some o' →
      more.length ≤ o.effort ∧
        (Stuck (guarded Orderly (step args)) Action.proceeds o' → o'.Finished ∧
          ((∀ s ∈ o.connector.subs, s.stopLatch = true) → o'.Over))) ∧
      ∃ more o', (∀ a ∈ more, a.proceeds = true) ∧ Along (step args) Orderly more o ∧
        exec (step args) more o = some o' ∧
          Stuck (guarded Orderly (step args)) Action.proceeds o' := by
  have hworking := working_of_run hC hrun hphase hruns hstop
  obtain ⟨hall, hrest⟩ := exec_guarded_comesToRest (C := Orderly) (μ := effort)
    (I := fun u ↦ u.Working ∧ Connector.KeepsSubs o.connector u.connector)
    (fun hu hC ha h ↦ by
      obtain ⟨hworking', hless⟩ := working_step hu.1 hC ha h
      exact ⟨⟨hworking', hu.2.trans (keepsSubs_of_proceeds ha h)⟩, hless⟩)
    ⟨hworking, .of_eq rfl⟩
  refine ⟨fun more o' hmore halong hexec ↦ ?_, hrest⟩
  obtain ⟨⟨hworking', hkeeps⟩, hle⟩ := hall more o' hmore halong hexec
  refine ⟨hle, fun hstuck ↦ ?_⟩
  have hfinished := finished_of_stuck hworking' hstuck
  refine ⟨hfinished, fun hstopped ↦ hfinished.over fun s' hs' ↦ ?_⟩
  obtain ⟨s, hs, hstays⟩ := hkeeps.exists_mem hs'
  exact hstays.stopLatch.trans (hstopped s hs)

/-- A subscription to the trades has its channel, another one waits for it, and both are told to
stop. -/
def stopBoth : List Action :=
  askForTrades ++ [.connector (.start btcTrades), .connector (.resume 1 none),
    .connector (.stop 0), .connector (.stop 1)]

theorem run_shutsDown_stopBoth : ∃ o, run {} stopBoth = some o ∧
    o.connector.subs.map (·.pc) = [.awaitingStop, .waiting .stopping] ∧
      ∃ more o', exec (step {}) more o = some o' ∧ o'.Over := by
  obtain ⟨o, hrun, hpcs, hlatches, t, hphase, hruns, hstop⟩ : ∃ o, run {} stopBoth = some o ∧
      o.connector.subs.map (·.pc) = [.awaitingStop, .waiting .stopping] ∧
      (∀ s ∈ o.connector.subs, s.stopLatch = true) ∧
      ∃ t, o.connector.phase = .online t ∧ t.Runs ∧ o.connector.stopRequested = false :=
    ⟨_, rfl, rfl, by decide, _, rfl, ⟨rfl, rfl, rfl⟩, rfl⟩
  obtain ⟨hall, more, o', hmore, halong, hexec, hstuck⟩ :=
    @run_shutsDown {} o stopBoth t (by decide) hrun hphase hruns hstop
  exact ⟨o, hrun, hpcs, more, o', hexec, ((hall more o' hmore halong hexec).2 hstuck).2 hlatches⟩

end Dialogue

end Ftx

end BoostConnector
