import BoostConnector.Entity.LifetimeInvariant

/-!
# Who controls a lifetime

A public pointer owns in the phase `running` and in no other. So the phase ends with the release of
the last one, and `stop` is called there.
-/

namespace BoostConnector

namespace Entity

namespace LifetimePtr

open History Memory Transition

/-- A call that concerns private pointers only. -/
def Command.isPrivate : Command → Bool
  | .handle .impl _ | .reset .impl _ | .resetWeak .impl _ | .sharedFromThis => true
  | _ => false

/-! ## From phase to phase -/

/-- The phases in their order. -/
inductive Phase.Next : Phase → Phase → Prop where
  | same {phase : Phase} : Next phase phase
  | made : Next .absent .made
  | starting {phase : Phase} {frame : Option ℕ} (h : phase.hasMade = false) :
      Next phase (.starting frame)
  | running {frame : Option ℕ} : Next (.starting frame) .running
  | failed {frame : Option ℕ} : Next (.starting frame) .failed
  | stopping : Next .running .stopping
  | stopped : Next .stopping .stopped

/-- The phase `running` ends with the call of `stop`. -/
theorem Phase.Next.hasStopped {phase phase' : Phase} (h : phase.Next phase') :
    phase'.hasStopped.toNat
      = phase.hasStopped.toNat + if phase = .running ∧ phase' ≠ .running then 1 else 0 := by
  cases h with
  | same => simp
  | made => simp [Phase.hasStopped]
  | @starting phase _ h =>
    obtain ⟨hreturned, hstopped, -⟩ := Phase.nothing_of_hasMade h
    have hne : phase ≠ .running := fun hrunning ↦ by simp [hrunning, Phase.hasReturned] at hreturned
    rw [hstopped, if_neg (fun hrunning ↦ hne hrunning.1)]
    rfl
  | running => simp [Phase.hasStopped]
  | failed => simp [Phase.hasStopped]
  | stopping => simp [Phase.hasStopped]
  | stopped => simp [Phase.hasStopped]

namespace State

variable {s t : State}

@[simp] theorem setImpl_phase (block : ControlBlock) : (s.setImpl block).phase = s.phase := by
  rw [setImpl]
  split_ifs <;> rfl

@[simp] theorem setImpl_proxy (block : ControlBlock) : (s.setImpl block).proxy = s.proxy := by
  rw [setImpl]
  split_ifs <;> rfl

@[simp] theorem setProxyWeak_phase (block : ControlBlock) :
    (s.setProxyWeak block).phase = s.phase := by
  rw [setProxyWeak]
  split_ifs with hlast
  · exact setImpl_phase _
  · rfl

theorem phase_of_leaveFrame {frame : Option ℕ} (hleave : s.leaveFrame frame = some t) :
    t.phase = s.phase := by
  cases frame with
  | none => rw [Option.some_inj.mp hleave]
  | some i =>
    obtain ⟨block, -, rfl⟩ := Option.map_eq_some_iff.mp hleave
    exact setImpl_phase block

theorem Inv.next (h : s.Inv) {command : Command} (hstep : State.step command s = some t) :
    s.phase.Next t.phase := by
  cases call_of_step hstep with
  | makeShared habsent =>
    rw [habsent]
    exact .made
  | makeLifetimePtr hmade => exact .starting (by rw [hmade]; rfl)
  | makeLifetimePtrArgs habsent => exact .starting (by rw [habsent]; rfl)
  | startReturns hstarting hleave =>
    rw [phase_of_leaveFrame hleave, h.finishStart_eq hstarting, hstarting]
    exact .running
  | startThrows hstarting hleave =>
    rw [phase_of_leaveFrame hleave, h.unwindStart_eq hstarting, setImpl_phase, hstarting]
    exact .failed
  | stopReturns hstopping =>
    rw [finishDeleter, setProxyWeak_phase, hstopping]
    exact .stopped
  | handleLifetime => exact .same
  | handleImpl => exact .same
  | resetLifetime hrelease =>
    rw [setProxy]
    split_ifs with hlast
    · have hflag := h.flag.trans (h.hasReturned_of_release hrelease)
      rw [lifetimeDeleter, if_pos hflag, h.running_of_last hrelease hlast.1]
      exact .stopping
    · exact .same
  | resetImpl =>
    rw [setImpl_phase]
    exact .same
  | resetWeakLifetime =>
    rw [setProxyWeak_phase]
    exact .same
  | resetWeakImpl => exact .same
  | sharedFromThis => exact .same

/-! ## Who controls the lifetime -/

/-- What the history and the pointers say about each other. -/
structure ControlsLifetime (s : State) : Prop where
  order : AtEach InOrder s.events
  start : .returned ∈ s.events ∨ .threw ∈ s.events → s.events.count .start = 1
  owned : s.proxy.Owned → .returned ∈ s.events
  stop : s.events.count .stop = if .returned ∈ s.events ∧ ¬s.proxy.Owned then 1 else 0
  threw : .threw ∈ s.events → .stop ∉ s.events
  destroyed : .destroyed ∈ s.events → ¬s.proxy.Owned ∧ ¬s.impl.Owned

theorem Inv.controlsLifetime (h : s.Inv) : s.ControlsLifetime where
  order := h.recorded.order
  start hcalled := by
    rw [mem_events_iff h.recorded.returned, mem_events_iff h.recorded.threw] at hcalled
    rw [h.recorded.start, Phase.hasMade_of_called hcalled, Bool.toNat_true]
  owned howned := by
    rw [mem_events_iff h.recorded.returned, h.owned.mp howned]
    rfl
  stop := by
    rw [h.recorded.stop]
    simp only [h.owned, mem_events_iff h.recorded.returned]
    cases s.phase <;> simp [Phase.hasStopped, Phase.hasReturned]
  threw hthrew := by
    rw [mem_events_iff h.recorded.threw] at hthrew
    rw [mem_events_iff h.recorded.stop]
    cases hphase : s.phase <;> simp_all [Phase.hasThrown, Phase.hasStopped]
  destroyed hdestroyed := by
    rw [mem_events_iff h.recorded.destroyed, Bool.and_eq_true, beq_iff_eq] at hdestroyed
    have hcounted := h.implCounted
    rw [ControlBlock.UseCounted, hdestroyed.2] at hcounted
    have hdeleter : s.deleter = false := by
      cases hdeleter : s.deleter with
      | false => rfl
      | true => simp [hdeleter] at hcounted
    constructor
    · rw [h.owned]
      intro hrunning
      have hproxy := hasProxy_of_deleter h le_rfl hdeleter
      simp [hrunning, Phase.hasProxy] at hproxy
    · rw [ControlBlock.owned_iff]
      omega

theorem proxy_of_isPrivate {command : Command} (hprivate : command.isPrivate = true)
    (hstep : step command s = some t) : t.proxy = s.proxy := by
  cases call_of_step hstep with
  | handleImpl => rfl
  | @resetImpl _ block => exact setImpl_proxy block
  | resetWeakImpl => rfl
  | sharedFromThis => rfl
  | _ => cases hprivate

/-- `stop` is called in the step that releases the last public pointer, and private pointers have no
say in it. -/
structure StopsWithLast (command : Command) (s t : State) : Prop where
  stop : t.events.count .stop
    = s.events.count .stop + if s.proxy.Owned ∧ ¬t.proxy.Owned then 1 else 0
  privately : command.isPrivate = true →
    t.proxy = s.proxy ∧ t.events.count .stop = s.events.count .stop

theorem Inv.stopsWithLast (h : s.Inv) {command : Command}
    (hstep : State.step command s = some t) : StopsWithLast command s t := by
  have ht := h.step hstep
  have hstop : t.events.count .stop
      = s.events.count .stop + if s.proxy.Owned ∧ ¬t.proxy.Owned then 1 else 0 := by
    rw [h.recorded.stop, ht.recorded.stop, (h.next hstep).hasStopped]
    simp only [h.owned, ht.owned, ne_eq]
  refine ⟨hstop, fun hprivate ↦ ?_⟩
  have hproxy := proxy_of_isPrivate hprivate hstep
  refine ⟨hproxy, ?_⟩
  rw [hstop, hproxy, if_neg (fun hlost ↦ hlost.2 hlost.1), Nat.add_zero]

/-- **The public lifetime controls start and stop.** In every run, `start` comes once and before the
return, `stop` once and with the release of the last public pointer, and the object is destroyed
after that and without owners. -/
theorem lifetime_controlled {program : List Command} (hrun : run program = some s) :
    s.ControlsLifetime ∧ ∀ command t, step command s = some t → StopsWithLast command s t :=
  have h := inv_of_run hrun
  ⟨h.controlsLifetime, fun _ _ hstep ↦ h.stopsWithLast hstep⟩

/-- A public copy comes and goes, a private one and a clone are taken, the public pointer goes, and
the private ones after it. -/
def cloneProgram : List Command :=
  [.makeShared, .makeLifetimePtr 0, .startReturns, .handle .lifetime (.copy 0), .reset .lifetime 1,
    .handle .impl (.copy 0), .reset .impl 1, .sharedFromThis, .reset .lifetime 0, .stopReturns,
    .reset .impl 0, .reset .impl 2]

theorem lifetime_controlled_clone : ∃ s, run cloneProgram = some s ∧ s.ControlsLifetime ∧
    s.events = [.start, .returned, .stop, .destroyed] := by
  have hevents : (run cloneProgram).map State.events
      = some [.start, .returned, .stop, .destroyed] := by
    decide
  obtain ⟨s, hrun, hs⟩ := Option.map_eq_some_iff.mp hevents
  exact ⟨s, hrun, (lifetime_controlled hrun).1, hs⟩

end State

end LifetimePtr

end Entity

end BoostConnector
