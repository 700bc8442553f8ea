import BoostConnector.Ftx.Shutdown

/-!
# The venue publishes what is wanted

A channel is wanted while there is a subscription to it that was not told to stop. `Shutdown` says
what becomes of those that were told; here are the others. One that waits for its channel gets on
only if it is woken, so here every release wakes somebody who will take the channel, if there is
one (`WakesUsefully`). Then no channel is left that somebody waits for and nobody has, and where
nobody can go on the venue publishes just the channels that were wanted when the subscriptions were
left to themselves, whatever they did in between (`run_publishesWanted`).
-/

namespace BoostConnector

namespace Ftx

open Transition

/-- Some subscription to the channel was not told to stop. -/
def Connector.Wanted (c : Connector) (index : ChannelMarketPair) : Prop :=
  ∃ s ∈ c.subs, s.topic = index ∧ s.stopLatch = false

/-- The subscriptions that there are want what they did. -/
theorem Connector.KeepsSubs.wanted_iff {c d : Connector} (h : Connector.KeepsSubs c d)
    (index : ChannelMarketPair) : d.Wanted index ↔ c.Wanted index := by
  constructor
  · rintro ⟨t, ht, htopic, hlatch⟩
    obtain ⟨s, hs, hstays⟩ := h.exists_mem ht
    exact ⟨s, hs, hstays.topic.symm.trans htopic, hstays.stopLatch.symm.trans hlatch⟩
  · rintro ⟨s, hs, htopic, hlatch⟩
    obtain ⟨i, hi⟩ := List.mem_iff_getElem?.mp hs
    obtain ⟨t, ht, hstays⟩ := h.stays i s hi
    exact ⟨t, List.mem_of_getElem? ht, hstays.topic.trans htopic, hstays.stopLatch.trans hlatch⟩

namespace Dialogue

variable {args : Args} {o o' : Dialogue}

/-! ## No hand-over is lost -/

/-- The orderly steps whose releases wake somebody who will take the channel. -/
def Attentive (a : Action) (o : Dialogue) : Prop :=
  Orderly a o ∧ ∀ b ∈ a.connector? o, WakesUsefully b o.connector

instance (a : Action) (o : Dialogue) : Decidable (Attentive a o) :=
  inferInstanceAs (Decidable (_ ∧ ∀ b ∈ a.connector? o, _))

theorem step_attended {a : Action} (h : Handover.Attended o.connector.view) (ha : Attentive a o)
    (hstep : step args a o = some o') : Handover.Attended o'.connector.view := by
  rcases connector_of_step hstep with hsame | ⟨b, hb, hd⟩
  · exact hsame ▸ h
  · exact Handover.path_invariant Handover.step_attended h
      (step_path (fun _ _ _ ↦ usefulWake_of_wakesUsefully (ha.2 b hb)) hd)

/-- Where nobody can go on attentively, nobody can in any orderly way: all whose stop came first
while they waited have gone, so there is nobody left who could be woken in vain. -/
theorem stuck_of_attentive (h : Stuck (guarded Attentive (step args)) Action.proceeds o) :
    Stuck (guarded Orderly (step args)) Action.proceeds o := by
  have hsettle (i : ℕ) : Attentive (.connector (.settle i)) o := by
    refine ⟨orderly_settle o i, ?_⟩
    rintro b hb
    obtain rfl : .settle i = b := Option.some_inj.mp hb
    simp [WakesUsefully, Ftx.Action.resumed?]
  refine stuck_guarded.mpr fun a ha hC ↦ stuck_guarded.mp h a ha ⟨hC, ?_⟩
  rintro b - r - j - s hs hpc
  exact absurd hpc (not_stopping_of_stuck hsettle h (List.mem_of_getElem? hs))

/-! ## Where nobody can go on -/

/-- **Where nobody can go on, what is wanted is published**, and nothing else is. -/
theorem published_iff_wanted (h : o.Working) (hattended : Handover.Attended o.connector.view)
    (hstuck : Stuck (guarded Orderly (step args)) Action.proceeds o) (index : ChannelMarketPair) :
    o.venue.published index = true ↔ o.connector.Wanted index := by
  have hrests := h.rests hstuck
  have howned (howner : ∃ r ∈ o.connector.subs,
      r.topic = index ∧ r.pc = .awaitingStop ∧ r.stopLatch = false) :
      o.venue.published index = true := by
    obtain ⟨r, hr, htopic, hpc, -⟩ := howner
    exact (hrests.published index).mpr ⟨r, hr, htopic, hpc⟩
  constructor
  · intro hpublished
    obtain ⟨s, hs, htopic, hpc⟩ := (hrests.published index).mp hpublished
    have hnot := h.not_ready hstuck hs fun hwoken ↦ absurd (hpc.symm.trans hwoken) (by decide)
    refine ⟨s, hs, htopic, ?_⟩
    rwa [Subscription.ready, hpc] at hnot
  · rintro ⟨s, hs, rfl, hlatch⟩
    -- one that is wanted has its channel, or somebody who is wanted has it
    by_cases hwoken : s.pc = .waiting .woken
    · exact howned (h.exists_owner_of_woken hstuck hs hwoken)
    have hnot := h.not_ready hstuck hs fun hpc ↦ absurd hpc hwoken
    have hstopping := h.minds.stopping s hs
    rcases hpc : s.pc with _ | (_ | _ | _ | _) | _ | _ | _ <;>
      simp [Subscription.ready, hpc, hlatch, Pc.isStopping] at hnot hwoken hstopping
    · -- whoever waits was woken, or somebody has the channel
      obtain ⟨cs, hcs⟩ := Connector.element_of_usesChannel h.counted hs (by rw [hpc]; rfl)
      obtain ⟨hlookup, hnode⟩ := Connector.element_eq_some hcs
      by_cases hacq : cs.acquired = true
      · exact howned (h.exists_owner hstuck hlookup hacq)
      · have hwaits : s.party.WaitsOn s.topic cs.slot.node :=
          ⟨rfl, hnode.symm, by rw [Subscription.party, hpc]; rfl⟩
        obtain ⟨j, r, hr, htopic, -, hrpc⟩ := Connector.exists_sub_of_party
          (hattended s.topic cs.slot (Connector.view_slots hlookup) (Bool.eq_false_iff.mpr hacq)
            ⟨s.party, List.mem_map_of_mem hs, hwaits⟩)
        rw [← htopic] at howned ⊢
        exact howned (h.exists_owner_of_woken hstuck (List.mem_of_getElem? hr) hrpc)
    · exact (hrests.published s.topic).mpr ⟨s, hs, rfl, hpc⟩

/-- **What is wanted is published in the end**, and nothing else. Take any state of an attentive run
whose connection is read and written and not about to be stopped. From there the subscriptions, the
connector and the venue go on by themselves, in any attentive way, until none of them can. Whatever
they did, the venue then publishes just the channels that were wanted at the outset. -/
theorem run_publishesWanted {actions : List Action} {t : Tasks}
    (hC : Along (step args) Attentive actions {}) (hrun : run args actions = some o)
    (hphase : o.connector.phase = .online t) (hruns : t.Runs)
    (hstop : o.connector.stopRequested = false) :
    (∀ more o', (∀ a ∈ more, a.proceeds = true) → Along (step args) Attentive more o →
      exec (step args) more o = some o' →
      more.length ≤ o.effort ∧ (Stuck (guarded Attentive (step args)) Action.proceeds o' →
        ∀ index, o'.venue.published index = true ↔ o.connector.Wanted index)) ∧
      ∃ more o', (∀ a ∈ more, a.proceeds = true) ∧ Along (step args) Attentive more o ∧
        exec (step args) more o = some o' ∧
          Stuck (guarded Attentive (step args)) Action.proceeds o' := by
  have hworking := working_of_run (hC.imp And.left) hrun hphase hruns hstop
  have hfresh : Handover.Attended ({} : Connector).view := Handover.attended_initial
  have hattended : Handover.Attended o.connector.view :=
    exec_invariant_of_along Attentive (fun o ↦ Handover.Attended o.connector.view) step_attended
      hfresh hC hrun
  obtain ⟨hall, hrest⟩ := exec_guarded_comesToRest (C := Attentive) (μ := effort)
    (I := fun u ↦ u.Working ∧ Handover.Attended u.connector.view ∧
      Connector.KeepsSubs o.connector u.connector)
    (fun hu hC ha h ↦ by
      obtain ⟨hworking', hless⟩ := working_step hu.1 hC.1 ha h
      exact ⟨⟨hworking', step_attended hu.2.1 hC h, hu.2.2.trans (keepsSubs_of_proceeds ha h)⟩,
        hless⟩)
    ⟨hworking, hattended, .of_eq rfl⟩
  refine ⟨fun more o' hmore halong hexec ↦ ?_, hrest⟩
  obtain ⟨⟨hworking', hattended', hkeeps⟩, hle⟩ := hall more o' hmore halong hexec
  refine ⟨hle, fun hstuck index ↦ ?_⟩
  rw [← hkeeps.wanted_iff]
  exact published_iff_wanted hworking' hattended' (stuck_of_attentive hstuck) index

/-- One subscription to the trades has the channel, another one waits for it, and the first one is
told to stop. -/
def stopFirst : List Action :=
  askForTrades ++ [.connector (.start btcTrades), .connector (.resume 1 none),
    .connector (.stop 0)]

theorem run_publishesWanted_stopFirst : ∃ o, run {} stopFirst = some o ∧
    o.connector.subs.map (·.pc) = [.awaitingStop, .waiting .suspended] ∧
      ∃ more o', exec (step {}) more o = some o' ∧ o'.venue.published btcTrades = true := by
  obtain ⟨o, hrun, hpcs, hwanted, t, hphase, hruns, hstop⟩ : ∃ o, run {} stopFirst = some o ∧
      o.connector.subs.map (·.pc) = [.awaitingStop, .waiting .suspended] ∧
      o.connector.Wanted btcTrades ∧
      ∃ t, o.connector.phase = .online t ∧ t.Runs ∧ o.connector.stopRequested = false :=
    ⟨_, rfl, rfl, ⟨_, .tail _ (.head _), rfl, rfl⟩, _, rfl, ⟨rfl, rfl, rfl⟩, rfl⟩
  obtain ⟨hall, more, o', hmore, halong, hexec, hstuck⟩ :=
    @run_publishesWanted {} o stopFirst t (by decide) hrun hphase hruns hstop
  exact ⟨o, hrun, hpcs, more, o', hexec,
    ((hall more o' hmore halong hexec).2 hstuck btcTrades).mpr hwanted⟩

end Dialogue

end Ftx

end BoostConnector
