import BoostConnector.Entity.LifetimePtr

/-!
# The invariant of lifetime pointers

The invariant goes by the phase of the object. The two counts are right: a local `proxy` is an owner
of the bool while `start` runs, and the deleter is an owner of the object as long as the block of
the bool is there. A public pointer owns in the phase `running` and in no other.
-/

namespace BoostConnector

namespace Entity

namespace LifetimePtr

open History Memory Transition

/-! ## Phases -/

namespace Phase

def hasObject : Phase → Bool
  | absent => false
  | _ => true

def hasMade : Phase → Bool
  | absent | made => false
  | _ => true

def isStarting : Phase → Bool
  | starting _ => true
  | _ => false

/-- The owners of the bool have their share of the weak count. -/
def hasProxy : Phase → Bool
  | starting _ | running | stopping => true
  | _ => false

def hasReturned : Phase → Bool
  | running | stopping | stopped => true
  | _ => false

def hasStopped : Phase → Bool
  | stopping | stopped => true
  | _ => false

def hasThrown : Phase → Bool
  | failed => true
  | _ => false

variable {phase : Phase}

theorem hasStopped_of_hasReturned (h : phase.hasReturned = true) (hproxy : phase.hasProxy = false) :
    phase.hasStopped = true := by
  cases phase <;> simp_all [hasReturned, hasProxy, hasStopped]

theorem isStarting_of_hasReturned (h : phase.hasReturned = true) : phase.isStarting = false := by
  cases phase <;> simp_all [hasReturned, isStarting]

theorem hasObject_of_hasReturned (h : phase.hasReturned = true) : phase.hasObject = true := by
  cases phase <;> simp_all [hasReturned, hasObject]

theorem hasMade_of_called (h : phase.hasReturned = true ∨ phase.hasThrown = true) :
    phase.hasMade = true := by
  cases phase <;> simp_all [hasReturned, hasThrown, hasMade]

/-- Before the call, nothing has come of it. -/
theorem nothing_of_hasMade (h : phase.hasMade = false) :
    phase.hasReturned = false ∧ phase.hasStopped = false ∧ phase.hasThrown = false := by
  cases phase <;> simp_all [hasMade, hasReturned, hasStopped, hasThrown]

end Phase

/-- What has to come before each event, and what must not. -/
def InOrder (past : List Event) : Event → Prop
  | .start => .start ∉ past
  | .returned => .start ∈ past ∧ .returned ∉ past ∧ .threw ∉ past
  | .threw => .start ∈ past ∧ .returned ∉ past ∧ .threw ∉ past
  | .stop => .returned ∈ past ∧ .stop ∉ past
  | .destroyed => (.returned ∈ past → .stop ∈ past) ∧ .destroyed ∉ past

namespace State

variable {s t : State}

/-! ## The invariant -/

/-- The events so far are those of the phase. -/
structure Recorded (s : State) : Prop where
  start : s.events.count .start = s.phase.hasMade.toNat
  returned : s.events.count .returned = s.phase.hasReturned.toNat
  threw : s.events.count .threw = s.phase.hasThrown.toNat
  stop : s.events.count .stop = s.phase.hasStopped.toNat
  destroyed : s.events.count .destroyed = (s.phase.hasObject && s.impl.useCount == 0).toNat
  order : AtEach InOrder s.events

/-- The invariant, with `extra` owners of the object besides the private pointers and with the weak
count of the bool's block before it was freed. -/
structure InvWith (extra weak : ℕ) (s : State) : Prop where
  implCounted : s.impl.UseCounted extra
  proxyCounted : s.proxy.UseCounted s.phase.isStarting.toNat
  weakCounted : s.proxy.WeakCounted s.phase.hasProxy.toNat
  deleter : s.deleter = true ↔ 0 < weak
  owned : s.proxy.Owned ↔ s.phase = .running
  unreturned : s.phase.hasReturned = false → s.proxy.owners = [] ∧ s.proxy.observers = []
  flag : s.flag = s.phase.hasReturned
  absent : s.phase.hasObject = false → s.impl = {}
  recorded : s.Recorded

/-- The deleter is there as long as its block is, and owns the object. -/
def Inv (s : State) : Prop := InvWith s.deleter.toNat s.proxy.weakCount s

theorem inv_start : ({} : State).Inv where
  implCounted := rfl
  proxyCounted := rfl
  weakCounted := rfl
  deleter := by simp
  owned := by simp [ControlBlock.Owned]
  unreturned _ := ⟨rfl, rfl⟩
  flag := rfl
  absent _ := rfl
  recorded := ⟨rfl, rfl, rfl, rfl, rfl, atEach_nil _⟩

theorem mem_events_iff {event : Event} {b : Bool} (h : s.events.count event = b.toNat) :
    event ∈ s.events ↔ b = true := by
  rw [← List.count_pos_iff, h]
  cases b with
  | false => simp
  | true => simp

/-! ## Owners of the object -/

theorem hasProxy_of_deleter {extra weak : ℕ} (h : InvWith extra weak s)
    (hweak : s.proxy.weakCount ≤ weak) (hdeleter : s.deleter = false) :
    s.phase.hasProxy = false := by
  have hzero : weak = 0 := by
    have hnot := mt h.deleter.mpr (by simp [hdeleter])
    omega
  have hcount := h.weakCounted
  rw [ControlBlock.WeakCounted] at hcount
  cases hphase : s.phase.hasProxy with
  | false => rfl
  | true =>
    rw [hphase, Bool.toNat_true] at hcount
    omega

/-- The owners of the object change, but there are some as before, or none as before. -/
theorem InvWith.withImpl {extra weak : ℕ} (h : InvWith extra weak s)
    (hweak : s.proxy.weakCount = weak) {block : ControlBlock}
    (hblock : block.UseCounted s.deleter.toNat)
    (hzero : block.useCount = 0 ↔ s.impl.useCount = 0) (hobject : s.phase.hasObject = true) :
    Inv { s with impl := block } := by
  have hsame : (block.useCount == 0) = (s.impl.useCount == 0) := by
    rw [Bool.eq_iff_iff, beq_iff_eq, beq_iff_eq, hzero]
  constructor
  · exact hblock
  · exact h.proxyCounted
  · exact h.weakCounted
  · exact hweak ▸ h.deleter
  · exact h.owned
  · exact h.unreturned
  · exact h.flag
  · exact fun habsent ↦ absurd (hobject.symm.trans habsent) (by simp)
  · exact ⟨h.recorded.start, h.recorded.returned, h.recorded.threw, h.recorded.stop,
      h.recorded.destroyed.trans (by rw [hsame]), h.recorded.order⟩

/-- Some owner of the object goes, and perhaps the object. -/
theorem InvWith.setImpl {extra weak : ℕ} (h : InvWith extra weak s)
    (hweak : s.proxy.weakCount = weak) {block : ControlBlock}
    (hblock : block.UseCounted s.deleter.toNat) (hle : block.useCount ≤ s.impl.useCount)
    (hphase : s.phase.hasObject = true) : (s.setImpl block).Inv := by
  have hdestroyed := h.recorded.destroyed
  rw [State.setImpl]
  split_ifs with hlast
  · have hgone : s.deleter = false := by
      rw [ControlBlock.UseCounted, hlast.2] at hblock
      cases hdeleter : s.deleter with
      | false => rfl
      | true => simp [hdeleter] at hblock
    rw [hphase, Bool.true_and, beq_false_of_ne hlast.1, Bool.toNat_false] at hdestroyed
    constructor
    · exact hblock
    · exact h.proxyCounted
    · exact h.weakCounted
    · exact hweak ▸ h.deleter
    · exact h.owned
    · exact h.unreturned
    · exact h.flag
    · exact fun habsent ↦ absurd (hphase.symm.trans habsent) (by simp)
    · constructor
      · simpa [emit] using h.recorded.start
      · simpa [emit] using h.recorded.returned
      · simpa [emit] using h.recorded.threw
      · simpa [emit] using h.recorded.stop
      · simp [emit, hdestroyed, hphase, hlast.2]
      · refine atEach_concat.mpr ⟨h.recorded.order, fun hreturned ↦ ?_, ?_⟩
        · -- the deleter is gone, so an object that was returned has been stopped
          have hproxy := hasProxy_of_deleter h hweak.le hgone
          rw [mem_events_iff h.recorded.returned] at hreturned
          rw [mem_events_iff h.recorded.stop]
          exact Phase.hasStopped_of_hasReturned hreturned hproxy
        · exact List.count_eq_zero.mp hdestroyed
  · exact h.withImpl hweak hblock (by omega) hphase

theorem Inv.hasObject (h : s.Inv) (hne : s.impl ≠ {}) : s.phase.hasObject = true := by
  cases hobject : s.phase.hasObject with
  | true => rfl
  | false => exact absurd (h.absent hobject) hne

theorem Inv.resetImpl (h : s.Inv) {i : ℕ} {block : ControlBlock}
    (hrelease : s.impl.release i = some block) : (s.setImpl block).Inv := by
  obtain ⟨hcounted, hle⟩ := h.implCounted.release hrelease
  refine InvWith.setImpl h rfl hcounted hle (h.hasObject ?_)
  intro hnone
  simp [ControlBlock.release, hnone] at hrelease

theorem Inv.leaveFrame (h : s.Inv) {frame : Option ℕ} (hleave : s.leaveFrame frame = some t) :
    t.Inv := by
  cases frame with
  | none => exact Option.some_inj.mp hleave ▸ h
  | some i =>
    obtain ⟨block, hrelease, rfl⟩ := Option.map_eq_some_iff.mp hleave
    exact h.resetImpl hrelease

/-! ## Owners of the bool -/

/-- The weak count goes down, and perhaps the deleter goes. -/
theorem InvWith.setProxyWeak {block : ControlBlock}
    (h : InvWith s.deleter.toNat s.proxy.weakCount { s with proxy := block })
    (hle : block.weakCount ≤ s.proxy.weakCount) (hobject : s.phase.hasObject = true) :
    (s.setProxyWeak block).Inv := by
  rw [State.setProxyWeak]
  split_ifs with hlast
  · have hdeleter : s.deleter = true := h.deleter.mpr (Nat.pos_of_ne_zero hlast.1)
    have hfreed : InvWith s.deleter.toNat 0 { s with proxy := block, deleter := false } :=
      { h with deleter := by simp, recorded := { h.recorded with } }
    have himpl := h.implCounted
    rw [hdeleter, Bool.toNat_true] at himpl
    exact hfreed.setImpl hlast.2 himpl.dropUse (Nat.sub_le _ _) hobject
  · exact { h with deleter := h.deleter.trans (by dsimp only; omega) }

/-- There are public pointers only after the return from `start`. -/
theorem Inv.hasReturned (h : s.Inv) (hne : s.proxy.owners ≠ [] ∨ s.proxy.observers ≠ []) :
    s.phase.hasReturned = true := by
  cases hreturned : s.phase.hasReturned with
  | true => rfl
  | false =>
    obtain ⟨howners, hobservers⟩ := h.unreturned hreturned
    exact absurd hne (by simp [howners, hobservers])

theorem Inv.weakCount_ne_zero (h : s.Inv) (howned : s.proxy.Owned) : s.proxy.weakCount ≠ 0 := by
  have hcount := h.weakCounted
  rw [h.owned.mp howned, ControlBlock.WeakCounted] at hcount
  simp only [Phase.hasProxy, Bool.toNat_true] at hcount
  omega

/-- After the return, the public pointers are the only owners of the bool. -/
theorem Inv.useCount_eq (h : s.Inv) (hreturned : s.phase.hasReturned = true) :
    s.proxy.useCount = s.proxy.owners.count true := by
  have hcounted := h.proxyCounted
  rwa [Phase.isStarting_of_hasReturned hreturned] at hcounted

theorem Inv.handleLifetime (h : s.Inv) {op : Handling} {block : ControlBlock}
    (hop : s.proxy.handle op = some block) : Inv { s with proxy := block } := by
  have hreturned : s.phase.hasReturned = true := by
    refine h.hasReturned ?_
    by_contra hnone
    rw [not_or, not_not, not_not] at hnone
    cases op <;> simp [ControlBlock.handle, hnone] at hop
  obtain ⟨huse, huseZero⟩ := h.proxyCounted.handle hop
  obtain ⟨hweak, hweakZero⟩ := h.weakCounted.handle h.weakCount_ne_zero hop
  constructor
  · exact h.implCounted
  · exact huse
  · exact hweak
  · exact h.deleter.trans (by dsimp only; omega)
  · have huseCount := h.useCount_eq hreturned
    have hstarting := Phase.isStarting_of_hasReturned hreturned
    rw [hstarting, ControlBlock.UseCounted, Bool.toNat_false] at huse
    rw [← h.owned, ControlBlock.owned_iff, ControlBlock.owned_iff]
    dsimp only
    omega
  · exact fun hnot ↦ absurd (hreturned.symm.trans hnot) (by simp)
  · exact h.flag
  · exact h.absent
  · exact { h.recorded with }

theorem Inv.hasReturned_of_release (h : s.Inv) {i : ℕ} {block : ControlBlock}
    (hrelease : s.proxy.release i = some block) : s.phase.hasReturned = true := by
  refine h.hasReturned (.inl ?_)
  intro hnone
  simp [ControlBlock.release, hnone] at hrelease

/-- The last public pointer can go in one phase only. -/
theorem Inv.running_of_last (h : s.Inv) {i : ℕ} {block : ControlBlock}
    (hrelease : s.proxy.release i = some block) (hlast : s.proxy.useCount ≠ 0) :
    s.phase = .running := by
  have huseCount := h.useCount_eq (h.hasReturned_of_release hrelease)
  rw [← h.owned, ControlBlock.owned_iff]
  omega

/-- No public pointer is left, and the deleter calls `stop`. -/
theorem Inv.beginStop (h : s.Inv) (hrunning : s.phase = .running) {block : ControlBlock}
    (huse : block.UseCounted 0) (hgone : block.useCount = 0)
    (hweakCount : block.weakCount = s.proxy.weakCount)
    (hobservers : block.observers = s.proxy.observers) :
    Inv (State.emit { s with phase := .stopping, proxy := block } .stop) := by
  have hweak := h.weakCounted
  have hrecorded := h.recorded
  rw [hrunning, ControlBlock.WeakCounted, ← hweakCount, ← hobservers] at hweak
  rw [ControlBlock.UseCounted, hgone] at huse
  constructor
  · exact h.implCounted
  · exact hgone.trans huse
  · exact hweak
  · exact hweakCount ▸ h.deleter
  · rw [ControlBlock.owned_iff]
    exact iff_of_false (by simp only [emit]; omega) (by simp [emit])
  · exact fun hnot ↦ absurd hnot (by simp [emit, Phase.hasReturned])
  · exact h.flag.trans (by rw [hrunning]; rfl)
  · exact fun habsent ↦ absurd habsent (by simp [emit, Phase.hasObject])
  · constructor
    · simpa [emit, hrunning, Phase.hasMade] using hrecorded.start
    · simpa [emit, hrunning, Phase.hasReturned] using hrecorded.returned
    · simpa [emit, hrunning, Phase.hasThrown] using hrecorded.threw
    · simpa [emit, hrunning, Phase.hasStopped] using hrecorded.stop
    · simpa [emit, hrunning, Phase.hasObject] using hrecorded.destroyed
    · refine atEach_concat.mpr ⟨hrecorded.order, ?_, ?_⟩
      · rw [mem_events_iff hrecorded.returned, hrunning]
        rfl
      · rw [mem_events_iff hrecorded.stop, hrunning]
        exact Bool.false_ne_true

/-- The release of a public pointer. With the last one the deleter runs, and calls `stop`. -/
theorem Inv.resetLifetime (h : s.Inv) {i : ℕ} {block : ControlBlock}
    (hrelease : s.proxy.release i = some block) : (s.setProxy block).Inv := by
  have hreturned := h.hasReturned_of_release hrelease
  obtain ⟨huse, hle⟩ := h.proxyCounted.release hrelease
  have huseCount := h.useCount_eq hreturned
  rw [Phase.isStarting_of_hasReturned hreturned, ControlBlock.UseCounted, Bool.toNat_false] at huse
  have hrunning := h.running_of_last hrelease
  obtain ⟨owns, hi, rfl⟩ := Option.map_eq_some_iff.mp hrelease
  rw [State.setProxy]
  split_ifs with hlast
  · rw [State.lifetimeDeleter, if_pos (h.flag.trans hreturned)]
    exact h.beginStop (hrunning hlast.1) huse hlast.2 rfl rfl
  · constructor
    · exact h.implCounted
    · rw [Phase.isStarting_of_hasReturned hreturned]
      exact huse
    · exact h.weakCounted
    · exact h.deleter
    · rw [← h.owned, ControlBlock.owned_iff, ControlBlock.owned_iff]
      dsimp only at huse hlast hle ⊢
      omega
    · exact fun hnot ↦ absurd (hreturned.symm.trans hnot) (by simp)
    · exact h.flag
    · exact h.absent
    · exact { h.recorded with }

theorem Inv.resetWeakLifetime (h : s.Inv) {i : ℕ} {block : ControlBlock}
    (hrelease : s.proxy.releaseWeak i = some block) : (s.setProxyWeak block).Inv := by
  have hreturned : s.phase.hasReturned = true := by
    refine h.hasReturned (.inr ?_)
    rintro hnone
    simp [ControlBlock.releaseWeak, hnone] at hrelease
  obtain ⟨hweak, hle⟩ := h.weakCounted.releaseWeak hrelease
  obtain ⟨refers, hi, rfl⟩ := Option.map_eq_some_iff.mp hrelease
  refine InvWith.setProxyWeak ?_ hle (Phase.hasObject_of_hasReturned hreturned)
  exact { h with
    weakCounted := hweak
    unreturned := fun hnot ↦ absurd (hreturned.symm.trans hnot) (by simp)
    recorded := { h.recorded with } }

/-- `stop` has returned, and the deleter is through. -/
theorem Inv.stopReturns (h : s.Inv) (hstopping : s.phase = .stopping) :
    (finishDeleter { s with phase := .stopped }).Inv := by
  have hweak := h.weakCounted
  rw [hstopping] at hweak
  refine InvWith.setProxyWeak ?_ (Nat.sub_le _ _) rfl
  constructor
  · exact h.implCounted
  · have huse := h.proxyCounted
    rw [hstopping] at huse
    exact huse
  · exact ControlBlock.WeakCounted.dropWeak hweak
  · exact h.deleter
  · refine h.owned.trans ?_
    rw [hstopping]
    simp
  · exact fun hnot ↦ absurd hnot (by simp [Phase.hasReturned])
  · exact h.flag.trans (by rw [hstopping]; rfl)
  · exact fun habsent ↦ absurd habsent (by simp [Phase.hasObject])
  · have hrecorded := h.recorded
    constructor
    · simpa [hstopping, Phase.hasMade] using hrecorded.start
    · simpa [hstopping, Phase.hasReturned] using hrecorded.returned
    · simpa [hstopping, Phase.hasThrown] using hrecorded.threw
    · simpa [hstopping, Phase.hasStopped] using hrecorded.stop
    · simpa [hstopping, Phase.hasObject] using hrecorded.destroyed
    · exact hrecorded.order

/-! ## The call of `make_lifetime_ptr` -/

/-- Before the call, there is nothing but perhaps the object. -/
theorem Inv.beginStart (h : s.Inv) (hmade : s.phase.hasMade = false) {block : ControlBlock}
    (hblock : block.UseCounted 0) (hdestroyed : .destroyed ∉ s.events) (frame : Option ℕ) :
    Inv ({ s with impl := block }.beginStart frame) := by
  have hrecorded := h.recorded
  obtain ⟨hreturned, hstopped, hthrown⟩ := Phase.nothing_of_hasMade hmade
  have hstart : s.events.count .start = 0 := by rw [hrecorded.start, hmade, Bool.toNat_false]
  have hnone : s.events.count .returned = 0 ∧ s.events.count .threw = 0 ∧
      s.events.count .stop = 0 := by
    rw [hrecorded.returned, hrecorded.threw, hrecorded.stop, hreturned, hthrown, hstopped]
    exact ⟨rfl, rfl, rfl⟩
  constructor
  · exact congrArg (· + 1) hblock
  · rfl
  · rfl
  · exact iff_of_true rfl Nat.one_pos
  · simp [State.beginStart, emit, ControlBlock.Owned]
  · exact fun _ ↦ ⟨rfl, rfl⟩
  · rfl
  · exact fun habsent ↦ absurd habsent (by simp [State.beginStart, emit, Phase.hasObject])
  · constructor
    · simp [State.beginStart, emit, hstart, Phase.hasMade]
    · simp [State.beginStart, emit, hnone.1, Phase.hasReturned]
    · simp [State.beginStart, emit, hnone.2.1, Phase.hasThrown]
    · simp [State.beginStart, emit, hnone.2.2, Phase.hasStopped]
    · simp [State.beginStart, emit, List.count_eq_zero.mpr hdestroyed]
    · exact atEach_concat.mpr ⟨hrecorded.order, List.count_eq_zero.mp hstart⟩

theorem Inv.deleter_eq_false (h : s.Inv) (hmade : s.phase.hasMade = false) : s.deleter = false := by
  have hreturned := (Phase.nothing_of_hasMade hmade).1
  have hweak := h.weakCounted
  have hproxy : s.phase.hasProxy = false := by
    cases hphase : s.phase <;> simp_all [Phase.hasMade, Phase.hasProxy]
  rw [ControlBlock.WeakCounted, (h.unreturned hreturned).2, hproxy] at hweak
  rw [← Bool.not_eq_true, h.deleter, hweak]
  simp

/-- While `start` runs, the local `proxy` is the only owner of the bool. -/
theorem Inv.proxy_eq (h : s.Inv) {frame : Option ℕ} (hstarting : s.phase = .starting frame) :
    s.proxy = { useCount := 1, weakCount := 1 } := by
  obtain ⟨howners, hobservers⟩ := h.unreturned (by rw [hstarting]; rfl)
  have huse := h.proxyCounted
  have hweak := h.weakCounted
  rw [hstarting, ControlBlock.UseCounted, howners] at huse
  rw [hstarting, ControlBlock.WeakCounted, hobservers] at hweak
  exact ControlBlock.ext huse hweak howners hobservers

/-- What the history says while `start` runs. -/
theorem Inv.underWay (h : s.Inv) {frame : Option ℕ} (hstarting : s.phase = .starting frame) :
    .start ∈ s.events ∧ .returned ∉ s.events ∧ .threw ∉ s.events := by
  rw [mem_events_iff h.recorded.start, mem_events_iff h.recorded.returned,
    mem_events_iff h.recorded.threw, hstarting]
  exact ⟨rfl, Bool.false_ne_true, Bool.false_ne_true⟩

theorem Inv.finishStart_eq (h : s.Inv) {frame : Option ℕ} (hstarting : s.phase = .starting frame) :
    s.finishStart
      = State.emit { s with phase := .running, flag := true, proxy := .new } .returned := by
  rw [State.finishStart, h.proxy_eq hstarting]
  rfl

theorem Inv.finishStart (h : s.Inv) {frame : Option ℕ} (hstarting : s.phase = .starting frame) :
    s.finishStart.Inv := by
  have hrecorded := h.recorded
  have hproxy := h.proxy_eq hstarting
  rw [h.finishStart_eq hstarting]
  constructor
  · exact h.implCounted
  · rfl
  · rfl
  · refine h.deleter.trans ?_
    rw [hproxy]
    exact Iff.rfl
  · exact iff_of_true (by simp [emit, ControlBlock.Owned, ControlBlock.new]) rfl
  · exact fun hnot ↦ absurd hnot (by simp [emit, Phase.hasReturned])
  · rfl
  · exact fun habsent ↦ absurd habsent (by simp [emit, Phase.hasObject])
  · constructor
    · simpa [emit, hstarting, Phase.hasMade] using hrecorded.start
    · simpa [emit, hstarting, Phase.hasReturned] using hrecorded.returned
    · simpa [emit, hstarting, Phase.hasThrown] using hrecorded.threw
    · simpa [emit, hstarting, Phase.hasStopped] using hrecorded.stop
    · simpa [emit, hstarting, Phase.hasObject] using hrecorded.destroyed
    · exact atEach_concat.mpr ⟨hrecorded.order, h.underWay hstarting⟩

/-- The flag is not set, so that the deleter does nothing but go. -/
theorem Inv.unwindStart_eq (h : s.Inv) {frame : Option ℕ} (hstarting : s.phase = .starting frame) :
    s.unwindStart = (State.emit { s with
      phase := .failed, proxy := {}, deleter := false } .threw).setImpl s.impl.dropUse := by
  have hflag : s.flag = false := h.flag.trans (by rw [hstarting]; rfl)
  simp [State.unwindStart, emit, h.proxy_eq hstarting, hflag, State.setProxy, lifetimeDeleter,
    finishDeleter, State.setProxyWeak, freeDeleter, ControlBlock.dropUse, ControlBlock.dropWeak]

theorem Inv.unwindStart (h : s.Inv) {frame : Option ℕ} (hstarting : s.phase = .starting frame) :
    s.unwindStart.Inv := by
  have hrecorded := h.recorded
  have hproxy := h.proxy_eq hstarting
  have hdeleter : s.deleter = true := h.deleter.mpr (by rw [hproxy]; exact Nat.one_pos)
  have hflag : s.flag = false := h.flag.trans (by rw [hstarting]; rfl)
  have himpl := h.implCounted
  rw [hdeleter, Bool.toNat_true] at himpl
  have hunwound : InvWith 1 0 (State.emit { s with
      phase := .failed, proxy := {}, deleter := false } .threw) := by
    constructor
    · exact himpl
    · rfl
    · rfl
    · simp [emit]
    · simp [emit, ControlBlock.Owned]
    · exact fun _ ↦ ⟨rfl, rfl⟩
    · exact hflag
    · exact fun habsent ↦ absurd habsent (by simp [emit, Phase.hasObject])
    · constructor
      · simpa [emit, hstarting, Phase.hasMade] using hrecorded.start
      · simpa [emit, hstarting, Phase.hasReturned] using hrecorded.returned
      · simpa [emit, hstarting, Phase.hasThrown] using hrecorded.threw
      · simpa [emit, hstarting, Phase.hasStopped] using hrecorded.stop
      · simpa [emit, hstarting, Phase.hasObject] using hrecorded.destroyed
      · exact atEach_concat.mpr ⟨hrecorded.order, h.underWay hstarting⟩
  rw [h.unwindStart_eq hstarting]
  exact hunwound.setImpl rfl himpl.dropUse (Nat.sub_le _ _) rfl

theorem Inv.makeShared (h : s.Inv) (habsent : s.phase = .absent) :
    Inv { s with phase := .made, impl := .new } := by
  have hdeleter := h.deleter_eq_false (by rw [habsent]; rfl)
  have hrecorded := h.recorded
  have hproxy := h.proxyCounted
  have hweak := h.weakCounted
  rw [habsent] at hproxy hweak
  constructor
  · rw [hdeleter]
    rfl
  · exact hproxy
  · exact hweak
  · exact h.deleter
  · exact h.owned.trans (by simp [habsent])
  · exact fun _ ↦ h.unreturned (by rw [habsent]; rfl)
  · exact h.flag.trans (by rw [habsent]; rfl)
  · exact fun hnot ↦ absurd hnot (by simp [Phase.hasObject])
  · constructor
    · exact hrecorded.start.trans (by rw [habsent]; rfl)
    · exact hrecorded.returned.trans (by rw [habsent]; rfl)
    · exact hrecorded.threw.trans (by rw [habsent]; rfl)
    · exact hrecorded.stop.trans (by rw [habsent]; rfl)
    · exact hrecorded.destroyed.trans (by rw [habsent]; rfl)
    · exact hrecorded.order

theorem Inv.makeLifetimePtr (h : s.Inv) (hmade : s.phase = .made) (howned : s.impl.Owned) :
    (s.beginStart none).Inv := by
  have hdeleter := h.deleter_eq_false (by rw [hmade]; rfl)
  have hcounted := h.implCounted
  rw [hdeleter, Bool.toNat_false] at hcounted
  refine h.beginStart (by rw [hmade]; rfl) hcounted ?_ none
  rw [mem_events_iff h.recorded.destroyed, hmade]
  rw [ControlBlock.owned_iff] at howned
  rw [ControlBlock.UseCounted] at hcounted
  simp only [Phase.hasObject, Bool.true_and, beq_iff_eq]
  omega

/-! ## Every call -/

theorem Inv.step (h : s.Inv) {command : Command} (hstep : State.step command s = some t) :
    t.Inv := by
  cases call_of_step hstep with
  | makeShared habsent => exact h.makeShared habsent
  | makeLifetimePtr hmade hi => exact h.makeLifetimePtr hmade (List.mem_of_getElem? hi)
  | makeLifetimePtrArgs habsent =>
    have hnew : ControlBlock.UseCounted 0 .new := rfl
    refine h.beginStart (by rw [habsent]; rfl) hnew ?_ _
    rw [mem_events_iff h.recorded.destroyed, habsent]
    exact Bool.false_ne_true
  | startReturns hstarting hleave => exact (h.finishStart hstarting).leaveFrame hleave
  | startThrows hstarting hleave => exact (h.unwindStart hstarting).leaveFrame hleave
  | stopReturns hstopping => exact h.stopReturns hstopping
  | handleLifetime hop => exact h.handleLifetime hop
  | @handleImpl op block hop =>
    obtain ⟨hcounted, hzero⟩ := h.implCounted.handle hop
    refine h.withImpl rfl hcounted hzero (h.hasObject ?_)
    intro hnone
    cases op <;> simp [ControlBlock.handle, hnone] at hop
  | resetLifetime hrelease => exact h.resetLifetime hrelease
  | resetImpl hrelease => exact h.resetImpl hrelease
  | resetWeakLifetime hrelease => exact h.resetWeakLifetime hrelease
  | resetWeakImpl hrelease =>
    obtain ⟨refers, hi, rfl⟩ := Option.map_eq_some_iff.mp hrelease
    refine h.withImpl rfl h.implCounted Iff.rfl (h.hasObject ?_)
    intro hnone
    simp [hnone] at hi
  | sharedFromThis hlive =>
    refine h.withImpl rfl (h.implCounted.addOwner true) ?_ (h.hasObject ?_)
    · simp only [ControlBlock.addOwner]
      omega
    · intro hnone
      exact hlive (by rw [hnone])

theorem inv_of_run {program : List Command} (hrun : run program = some s) : s.Inv :=
  exec_invariant Inv (fun h hstep ↦ h.step hstep) inv_start hrun

end State

end LifetimePtr

end Entity

end BoostConnector
