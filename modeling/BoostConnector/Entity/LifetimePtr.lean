import BoostConnector.Memory.SharedPtr
import BoostConnector.Transition.History
import BoostConnector.Transition.Run

/-!
# Lifetime pointers

`make_lifetime_ptr` starts an object and returns a pointer to it, the public one, which is an alias
of a `std::shared_ptr<bool>`. The bool says whether `start` returned. Its deleter stops the object,
and owns the object besides the private `std::shared_ptr`s that the program has.

So there are two control blocks. The one of the bool counts the public pointers and a local `proxy`
while the call lasts; the one of the object counts the private pointers and the `private_impl` of
the deleter, which lives as long as the first block does. What the object does in `start` and `stop`
is up to it, and so is an exception out of `start`: the program goes on in between. A program has
one object here and makes the call once.

Stopping follows the public pointers and nothing else (`lifetime_controlled`).
-/

namespace BoostConnector

namespace Entity

namespace LifetimePtr

open History Memory Transition

inductive Phase where
  /-- There is no object yet. -/
  | absent
  | made
  /-- `start` is running. With arguments, the call has an `impl` of its own in its frame. -/
  | starting (frame : Option ℕ)
  | running
  /-- `stop` is running, in the deleter. -/
  | stopping
  | stopped
  /-- `start` threw. -/
  | failed
  deriving DecidableEq

inductive Event where
  | start
  /-- `start` has returned, and `make_lifetime_ptr` returns the pointer. -/
  | returned
  | threw
  | stop
  | destroyed
  deriving DecidableEq

structure State where
  phase : Phase := .absent
  /-- The block of the object. -/
  impl : ControlBlock := {}
  /-- The block of the bool. -/
  proxy : ControlBlock := {}
  flag : Bool := false
  /-- The deleter has its `private_impl`. -/
  deleter : Bool := false
  events : List Event := []

/-- `lifetime_ptr<T>` or `std::shared_ptr<T>`. -/
inductive Side where
  | lifetime
  | impl

inductive Command where
  /-- `std::make_shared<T>(args...)` -/
  | makeShared
  /-- `make_lifetime_ptr(impl)` -/
  | makeLifetimePtr (i : ℕ)
  /-- `make_lifetime_ptr<T>(args...)` -/
  | makeLifetimePtrArgs
  | startReturns
  | startThrows
  | stopReturns
  | handle (side : Side) (op : Handling)
  | reset (side : Side) (i : ℕ)
  | resetWeak (side : Side) (i : ℕ)
  | sharedFromThis

namespace State

variable (s : State)

def emit (event : Event) : State := { s with events := s.events ++ [event] }

/-! ## Owners of the object -/

/-- Some owner of the object goes. The object is destroyed with its last owner. -/
def setImpl (block : ControlBlock) : State :=
  if s.impl.useCount ≠ 0 ∧ block.useCount = 0 then { s with impl := block }.emit .destroyed
  else { s with impl := block }

/-- The `impl` in the frame of the call. -/
def leaveFrame : Option ℕ → Option State
  | none => some s
  | some i => (s.impl.release i).map s.setImpl

/-! ## The block of the bool -/

/-- The block is freed, and the deleter in it. -/
def freeDeleter : State := { s with deleter := false }.setImpl s.impl.dropUse

/-- The weak count goes down. The block is freed with the last of it. -/
def setProxyWeak (block : ControlBlock) : State :=
  if s.proxy.weakCount ≠ 0 ∧ block.weakCount = 0 then { s with proxy := block }.freeDeleter
  else { s with proxy := block }

/-- The rest of the deleter, and what the last owner does after it. -/
def finishDeleter : State := s.setProxyWeak s.proxy.dropWeak

/-- `lifetime_deleter::operator()`, up to the call of `stop` if there is one. -/
def lifetimeDeleter : State :=
  if s.flag then { s with phase := .stopping }.emit .stop else s.finishDeleter

/-- Some owner of the bool goes. The deleter runs with the last one. -/
def setProxy (block : ControlBlock) : State :=
  if s.proxy.useCount ≠ 0 ∧ block.useCount = 0 then { s with proxy := block }.lifetimeDeleter
  else { s with proxy := block }

/-! ## Calls -/

/-- `make_lifetime_ptr(impl)` up to the call of `start`. -/
def beginStart (frame : Option ℕ) : State :=
  { s with
    phase := .starting frame
    impl := { s.impl with useCount := s.impl.useCount + 1 }
    proxy := { useCount := 1, weakCount := 1 }
    flag := false
    deleter := true }.emit .start

/-- What follows `start`: the flag, the returned pointer, and the end of the local `proxy`. -/
def finishStart : State :=
  let returned := { s with
    phase := .running, flag := true, proxy := s.proxy.addOwner true }.emit .returned
  returned.setProxy returned.proxy.dropUse

/-- The stack is unwound and takes the local `proxy` with it. -/
def unwindStart : State :=
  let failed := { s with phase := .failed }.emit .threw
  failed.setProxy failed.proxy.dropUse

/-- One call, or one return from the object. Undefined on a pointer that the program does not have
or may not use, and where the call in question is not under way. -/
def step : Command → State → Option State
  | .makeShared, s =>
    if s.phase = .absent then some { s with phase := .made, impl := .new } else none
  | .makeLifetimePtr i, s =>
    if s.phase = .made ∧ s.impl.owners[i]? = some true then some (s.beginStart none) else none
  | .makeLifetimePtrArgs, s =>
    if s.phase = .absent then some ({ s with impl := .new }.beginStart (some 0)) else none
  | .startReturns, s => match s.phase with
    | .starting frame => s.finishStart.leaveFrame frame
    | _ => none
  | .startThrows, s => match s.phase with
    | .starting frame => s.unwindStart.leaveFrame frame
    | _ => none
  | .stopReturns, s =>
    if s.phase = .stopping then some { s with phase := .stopped }.finishDeleter else none
  | .handle .lifetime op, s => (s.proxy.handle op).map fun block ↦ { s with proxy := block }
  | .handle .impl op, s => (s.impl.handle op).map fun block ↦ { s with impl := block }
  | .reset .lifetime i, s => (s.proxy.release i).map s.setProxy
  | .reset .impl i, s => (s.impl.release i).map s.setImpl
  | .resetWeak .lifetime i, s => (s.proxy.releaseWeak i).map s.setProxyWeak
  | .resetWeak .impl i, s => (s.impl.releaseWeak i).map fun block ↦ { s with impl := block }
  | .sharedFromThis, s =>
    if s.impl.useCount = 0 then none else some { s with impl := s.impl.addOwner true }

def run (program : List Command) : Option State := exec step program {}

/-! ## What a call can do -/

/-- The outcome of a call, with what it found. -/
inductive Call : Command → State → Prop
  | makeShared (habsent : s.phase = .absent) :
      Call .makeShared { s with phase := .made, impl := .new }
  | makeLifetimePtr {i : ℕ} (hmade : s.phase = .made) (hi : s.impl.owners[i]? = some true) :
      Call (.makeLifetimePtr i) (s.beginStart none)
  | makeLifetimePtrArgs (habsent : s.phase = .absent) :
      Call .makeLifetimePtrArgs ({ s with impl := .new }.beginStart (some 0))
  | startReturns {frame : Option ℕ} {t : State} (hstarting : s.phase = .starting frame)
      (hleave : s.finishStart.leaveFrame frame = some t) : Call .startReturns t
  | startThrows {frame : Option ℕ} {t : State} (hstarting : s.phase = .starting frame)
      (hleave : s.unwindStart.leaveFrame frame = some t) : Call .startThrows t
  | stopReturns (hstopping : s.phase = .stopping) :
      Call .stopReturns (finishDeleter { s with phase := .stopped })
  | handleLifetime {op : Handling} {block : ControlBlock} (hop : s.proxy.handle op = some block) :
      Call (.handle .lifetime op) { s with proxy := block }
  | handleImpl {op : Handling} {block : ControlBlock} (hop : s.impl.handle op = some block) :
      Call (.handle .impl op) { s with impl := block }
  | resetLifetime {i : ℕ} {block : ControlBlock} (hrelease : s.proxy.release i = some block) :
      Call (.reset .lifetime i) (s.setProxy block)
  | resetImpl {i : ℕ} {block : ControlBlock} (hrelease : s.impl.release i = some block) :
      Call (.reset .impl i) (s.setImpl block)
  | resetWeakLifetime {i : ℕ} {block : ControlBlock}
      (hrelease : s.proxy.releaseWeak i = some block) :
      Call (.resetWeak .lifetime i) (s.setProxyWeak block)
  | resetWeakImpl {i : ℕ} {block : ControlBlock} (hrelease : s.impl.releaseWeak i = some block) :
      Call (.resetWeak .impl i) { s with impl := block }
  | sharedFromThis (hlive : s.impl.useCount ≠ 0) :
      Call .sharedFromThis { s with impl := s.impl.addOwner true }

variable {s}

theorem call_of_step {command : Command} {t : State} (h : step command s = some t) :
    s.Call command t := by
  cases command with
  | makeShared =>
    rw [step] at h
    split_ifs at h with habsent
    obtain rfl := Option.some_inj.mp h
    exact .makeShared habsent
  | makeLifetimePtr i =>
    rw [step] at h
    split_ifs at h with hmade
    obtain rfl := Option.some_inj.mp h
    exact .makeLifetimePtr hmade.1 hmade.2
  | makeLifetimePtrArgs =>
    rw [step] at h
    split_ifs at h with habsent
    obtain rfl := Option.some_inj.mp h
    exact .makeLifetimePtrArgs habsent
  | startReturns =>
    rw [step] at h
    split at h
    · next frame hstarting => exact .startReturns hstarting h
    · cases h
  | startThrows =>
    rw [step] at h
    split at h
    · next frame hstarting => exact .startThrows hstarting h
    · cases h
  | stopReturns =>
    rw [step] at h
    split_ifs at h with hstopping
    obtain rfl := Option.some_inj.mp h
    exact .stopReturns hstopping
  | handle side op =>
    cases side with
    | lifetime =>
      obtain ⟨block, hop, rfl⟩ := Option.map_eq_some_iff.mp h
      exact .handleLifetime hop
    | impl =>
      obtain ⟨block, hop, rfl⟩ := Option.map_eq_some_iff.mp h
      exact .handleImpl hop
  | reset side i =>
    cases side with
    | lifetime =>
      obtain ⟨block, hrelease, rfl⟩ := Option.map_eq_some_iff.mp h
      exact .resetLifetime hrelease
    | impl =>
      obtain ⟨block, hrelease, rfl⟩ := Option.map_eq_some_iff.mp h
      exact .resetImpl hrelease
  | resetWeak side i =>
    cases side with
    | lifetime =>
      obtain ⟨block, hrelease, rfl⟩ := Option.map_eq_some_iff.mp h
      exact .resetWeakLifetime hrelease
    | impl =>
      obtain ⟨block, hrelease, rfl⟩ := Option.map_eq_some_iff.mp h
      exact .resetWeakImpl hrelease
  | sharedFromThis =>
    rw [step] at h
    split_ifs at h with hgone
    obtain rfl := Option.some_inj.mp h
    exact .sharedFromThis hgone

end State

end LifetimePtr

end Entity

end BoostConnector
