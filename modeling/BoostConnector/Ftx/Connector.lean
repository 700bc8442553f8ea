import BoostConnector.Ftx.StateMachine
import BoostConnector.Transition.Handover
import Mathlib.Data.List.AList

/-!
# The connector and its subscriptions

`ftx_websocket_connector_concept` with any number of `upstream_subscription_impl` objects, as one
machine. Everything runs on the connector's executor, one step at a time, and a step runs a
coroutine from one suspension point to the next. What the environment decides is carried by the
action: which ready coroutine goes on, how an outstanding operation completes, which wait
`cancel_one` picks, and in which order an unordered map is walked. `step` is undefined when the
action is not possible in the state.

Of the awaitable operators the model keeps what is documented: in `a || b` the operand that
completes first decides, `a && b && c` cancels the others on the first exception, waits for them and
rethrows, and a coroutine that was cancelled throws at its next `co_await` of an awaitable or an
asynchronous operation. Asserts are recorded when they fail, and the run goes on.

The operators are binary, so that `read_state && ftx_write_state && run_ping_pong` is a pair in a
pair, and an exception of the writer would cancel the keep-alive only after the reader has ended as
well. The model takes the three as the operands of one operator, which cancels at once.
-/

namespace BoostConnector

namespace Ftx

open Handover (Wait)

/-! ## State -/

inductive ConnectionState where
  | down
  | up
  deriving DecidableEq, Repr

/-- What `notify_connection_state` tells the handlers. -/
def ConnectionState.event : ConnectionState → ChannelEvent
  | down => .connectionDown
  | up => .connectionUp

/-- An element of `write_queue_`. The login frame is the only one that depends on the clock. -/
inductive Frame where
  | json (payload : Json.Value)
  | text (payload : Bytes)
  | login
  deriving Repr

inductive Assertion where
  /-- `notify_connection_state`: `assert(s != connection_state_)` -/
  | notifyNewState
  /-- `release_channel`: `assert(state.acquired)` -/
  | releaseAcquired
  /-- `release_channel`: `assert(state.interest)` -/
  | releaseInterest
  /-- `process_down_event`: `assert(connection.is_up())` -/
  | eventUp
  /-- `process_closed_event`: `assert(!"logic error - event seen when closed")` -/
  | eventNotClosed
  deriving DecidableEq, Repr

/-- `channel_state`. `node` identifies the element of the map, which is what iterators and
references denote; `onEvent` is the subscription whose state machine the stored handler calls. -/
structure ChannelState where
  node : ℕ
  onEvent : Option ℕ := none
  interest : ℤ := 0
  acquired : Bool := false
  deriving DecidableEq, Repr

/-- Where `upstream_subscription_impl::run` is suspended. -/
inductive Pc where
  | spawned
  /-- in `stop_latch_.wait() || state.cv.async_wait(..)` -/
  | waiting (w : Wait)
  | awaitingStop
  | awaitingClosed
  | left
  deriving DecidableEq, Repr

/-- A subscription with the locals of its `run`: the element its iterator denotes, and its state
machine with the closed latch. `seen` is the history of the events the machine was given, each with
the state it found. -/
structure Subscription where
  topic : ChannelMarketPair
  pc : Pc := .spawned
  node : ℕ := 0
  stopLatch : Bool := false
  sm : StateMachine
  seen : List (StateType × ChannelEvent) := []

/-- How a task ended. -/
inductive Outcome where
  | returned
  | threw
  deriving DecidableEq, Repr

/-- `read_state` -/
inductive Reader where
  | spawned
  | reading
  | ended (o : Outcome)
  deriving DecidableEq, Repr

/-- `ftx_write_state` -/
inductive Writer where
  | spawned
  | popping (woken : Bool)
  | writing (frame : Frame)
  | ended (o : Outcome)
  deriving Repr

/-- `run_ping_pong` -/
inductive Pinger where
  | spawned
  | awaitingPong
  | awaitingTimer
  | ended (o : Outcome)
  deriving DecidableEq, Repr

/-- The operands of the `&&` in `reconnect`, and whether they have been cancelled. -/
structure Tasks where
  reader : Reader := .spawned
  writer : Writer := .spawned
  pinger : Pinger := .spawned
  cancelled : Bool := false

/-- Where `run` and the `reconnect` it calls are. -/
inductive RunPhase where
  | idle
  | connecting
  | online (tasks : Tasks)
  | delay
  | finished

/-- `args_`, as far as `reconnect` looks at it. -/
structure Args where
  urlDecodes : Bool := true
  hasAuth : Bool := false

/-- `ftx_websocket_connector_concept`, the locals of `reconnect` (whether the current `ws` has
completed its handshake or was closed from this side, and `pong_buffer`) and the subscriptions.
`notified` and `failed` are the histories of the announced states and of the asserts that failed. -/
structure Connector where
  connectionState : ConnectionState := .down
  channelStates : AList (fun _ : ChannelMarketPair ↦ ChannelState) := ∅
  nextNode : ℕ := 0
  subs : List Subscription := []
  writeQueue : List Frame := []
  onDrop : Bool := false
  handshaken : Bool := false
  tcpClosed : Bool := false
  pongBuffer : Option Json.Value := none
  phase : RunPhase := .idle
  stopRequested : Bool := false
  notified : List ConnectionState := []
  failed : List Assertion := []

namespace Pc

/-- The phase of the hand-over protocol. -/
def phase : Pc → Handover.Phase
  | spawned => .outside
  | waiting w => .waiting w
  | awaitingStop | awaitingClosed => .owning
  | left => .left

/-- The wait on the channel's `cv` is completed. -/
def wake : Pc → Pc
  | waiting .suspended => waiting .woken
  | waiting .stopping => waiting .stopped
  | pc => pc

end Pc

namespace Subscription

def new (topic : ChannelMarketPair) : Subscription := { topic, sm := { topic } }

/-- The subscription has an outstanding wait on the `cv` of the element. -/
def WaitsOn (s : Subscription) (index : ChannelMarketPair) (node : ℕ) : Prop :=
  s.topic = index ∧ s.node = node ∧ s.pc.phase.isOutstanding = true

instance (s : Subscription) (index : ChannelMarketPair) (node : ℕ) :
    Decidable (s.WaitsOn index node) := inferInstanceAs (Decidable (_ ∧ _ ∧ _))

/-- The event is processed by the state machine. -/
def given (s : Subscription) (e : ChannelEvent) : Subscription :=
  { s with sm := (s.sm.processEvent e).1, seen := s.seen ++ [(s.sm.state, e)] }

end Subscription

namespace Writer

/-- Completes the wait of `write_queue.pop()`. -/
def wake : Writer → Writer
  | popping _ => popping true
  | w => w

def outcome? : Writer → Option Outcome
  | ended o => some o
  | _ => none

end Writer

def Reader.outcome? : Reader → Option Outcome
  | ended o => some o
  | _ => none

def Pinger.outcome? : Pinger → Option Outcome
  | ended o => some o
  | _ => none

namespace Tasks

/-- Cancellation completes the waits on timers; an outstanding read or write completes when the
environment says so. -/
def cancel (t : Tasks) : Tasks := { t with cancelled := true, writer := t.writer.wake }

/-- `write_queue_.push` completes the wait of the writer. -/
def wakeWriter (t : Tasks) : Tasks := { t with writer := t.writer.wake }

/-- What `co_await (a && b && c)` completes with, once all three have ended. -/
def joined (t : Tasks) : Option Outcome :=
  match t.reader.outcome?, t.writer.outcome?, t.pinger.outcome? with
  | some .returned, some .returned, some .returned => some .returned
  | some _, some _, some _ => some .threw
  | _, _, _ => none

end Tasks

namespace RunPhase

def mapTasks (f : Tasks → Tasks) : RunPhase → RunPhase
  | online t => online (f t)
  | phase => phase

def tasks? : RunPhase → Option Tasks
  | online t => some t
  | _ => none

end RunPhase

namespace Connector

variable (c : Connector)

/-! ## Updates -/

def setSub (i : ℕ) (s : Subscription) : Connector := { c with subs := c.subs.set i s }

def setChannel (index : ChannelMarketPair) (cs : ChannelState) : Connector :=
  { c with channelStates := c.channelStates.insert index cs }

def modifyTasks (f : Tasks → Tasks) : Connector := { c with phase := c.phase.mapTasks f }

/-- `assert(b)`; a failure is recorded under the name `a`. -/
def check (a : Assertion) (b : Bool) : Connector :=
  { c with failed := if b then c.failed else c.failed ++ [a] }

/-! ## The connection as the state machines see it -/

def isUp : Bool := c.connectionState = .up

/-- `send`: `write_queue_.push`. -/
def send (frame : Frame) : Connector :=
  { c with writeQueue := c.writeQueue ++ [frame] }.modifyTasks Tasks.wakeWriter

/-- `on_drop_` closes the socket and is called once. -/
def drop : Connector := if c.onDrop then { c with onDrop := false, tcpClosed := true } else c

def perform : Effect → Connector
  | .send payload => c.send (.json payload)
  | .drop => c.drop
  | .assertUp => c.check .eventUp c.isUp
  | .assertNotClosed => c.check .eventNotClosed false

def performAll (effects : List Effect) : Connector := effects.foldl perform c

/-- `on_event(e)` of the handler that subscription `i` stored. -/
def handle (i : ℕ) (e : ChannelEvent) : Connector :=
  match c.subs[i]? with
  | some s => (c.setSub i (s.given e)).performAll (s.sm.processEvent e).2
  | none => c

/-! ## Announcements -/

/-- One round of the loops over `channel_states_`. An acquired channel always has a handler. -/
def tell (e : ChannelEvent) (index : ChannelMarketPair) : Connector :=
  match c.channelStates.lookup index with
  | some cs =>
    if cs.acquired then
      match cs.onEvent with
      | some i => c.handle i e
      | none => c
    else c
  | none => c

/-- Tells the handlers of all acquired channels. No handler changes the map. -/
def broadcast (order : List ChannelMarketPair) (e : ChannelEvent) : Connector :=
  order.foldl (fun c index ↦ c.tell e index) c

/-- The order is one in which the map can be walked. -/
def Walks (order : List ChannelMarketPair) : Prop := order.Perm c.channelStates.keys

instance (order : List ChannelMarketPair) : Decidable (c.Walks order) :=
  inferInstanceAs (Decidable (order.Perm _))

theorem Walks.nodup {c : Connector} {order : List ChannelMarketPair} (h : c.Walks order) :
    order.Nodup :=
  h.nodup_iff.mpr c.channelStates.nodupKeys

theorem Walks.mem {c : Connector} {order : List ChannelMarketPair} (h : c.Walks order)
    {index : ChannelMarketPair} {cs : ChannelState}
    (hlookup : c.channelStates.lookup index = some cs) : index ∈ order := by
  refine h.mem_iff.mpr ?_
  rw [← AList.mem_keys, ← AList.lookup_isSome, hlookup]
  rfl

/-- `notify_connection_state` up to its loop. -/
def announce (s : ConnectionState) : Connector :=
  { c.check .notifyNewState (s ≠ c.connectionState) with
    connectionState := s
    notified := c.notified ++ [s] }

def notifyConnectionState (s : ConnectionState) (order : List ChannelMarketPair) : Connector :=
  (c.announce s).broadcast order s.event

/-! ## Channels -/

/-- `locate_channel` finds or creates the element and expresses interest. -/
def locateChannel (index : ChannelMarketPair) : ChannelState × Connector :=
  match c.channelStates.lookup index with
  | some cs =>
    let cs := { cs with interest := cs.interest + 1 }
    (cs, c.setChannel index cs)
  | none =>
    let cs : ChannelState := { node := c.nextNode, interest := 1 }
    (cs, { c with nextNode := c.nextNode + 1 }.setChannel index cs)

/-- `cv.cancel_one()` completes one outstanding wait if there is one. -/
def cancelOne (index : ChannelMarketPair) (node : ℕ) : Option ℕ → Option Connector
  | some j =>
    match c.subs[j]? with
    | some s => if s.WaitsOn index node then some (c.setSub j { s with pc := s.pc.wake }) else none
    | none => none
  | none => if ∃ s ∈ c.subs, s.WaitsOn index node then none else some c

/-- The element an iterator denotes; `none` where the iterator dangles. -/
def element (index : ChannelMarketPair) (node : ℕ) : Option ChannelState :=
  (c.channelStates.lookup index).filter fun cs ↦ cs.node = node

def releaseChannel (index : ChannelMarketPair) (node : ℕ) (wake : Option ℕ) :
    Option Connector := do
  let cs ← c.element index node
  let c := c.check .releaseAcquired cs.acquired
  let c := c.check .releaseInterest (cs.interest ≠ 0)
  let cs := { cs with acquired := false, interest := cs.interest - 1 }
  if cs.interest = 0 then
    if wake = none then some { c with channelStates := c.channelStates.erase index } else none
  else (c.setChannel index cs).cancelOne index node wake

/-! ## `upstream_subscription_impl::run` -/

/-- `co_await closed_latch.wait()` and what follows it. -/
def awaitClosed (i : ℕ) (s : Subscription) (wake : Option ℕ) : Option Connector :=
  if s.sm.closedLatch then do
    let c ← c.releaseChannel s.topic s.node wake
    some (c.setSub i { s with pc := .left })
  else if wake = none then some c
  else none

/-- `sm.close()` and what follows it. -/
def closeMachine (i : ℕ) (s : Subscription) (wake : Option ℕ) : Option Connector :=
  let s' := { s with sm := s.sm.close.1, pc := .awaitingClosed }
  ((c.setSub i s').performAll s.sm.close.2).awaitClosed i s' wake

/-- `co_await stop_latch_.wait()` and what follows it. -/
def awaitStop (i : ℕ) (s : Subscription) (wake : Option ℕ) : Option Connector :=
  if s.stopLatch then c.closeMachine i s wake
  else if wake = none then some c
  else none

/-- `state.acquired = true` and what follows it. -/
def acquire (i : ℕ) (s : Subscription) (wake : Option ℕ) : Option Connector := do
  let cs ← c.element s.topic s.node
  let c := c.setChannel s.topic { cs with acquired := true, onEvent := some i }
  let s := { s with pc := .awaitingStop }
  let c := c.setSub i s
  if c.isUp then (c.handle i .connectionUp).awaitStop i (s.given .connectionUp) wake
  else c.awaitStop i s wake

/-- `run` from its start to its first suspension point. -/
def enter (i : ℕ) (s : Subscription) (wake : Option ℕ) : Option Connector :=
  let (cs, c) := c.locateChannel s.topic
  let s := { s with node := cs.node }
  if cs.acquired then
    if wake = none then
      let w := if s.stopLatch then Wait.stopping else Wait.suspended
      some (c.setSub i { s with pc := .waiting w })
    else none
  else c.acquire i s wake

/-- `run` from the suspension point it is at to the next. -/
def resume (i : ℕ) (wake : Option ℕ) : Option Connector := do
  let s ← c.subs[i]?
  match s.pc with
  | .spawned => c.enter i s wake
  -- the stop latch decided the race
  | .waiting .stopped => if wake = none then some (c.setSub i { s with pc := .left }) else none
  -- the `cv` decided the race, and the loop is left without another look at the flag
  | .waiting .woken => c.acquire i s wake
  | .awaitingStop => if s.stopLatch then c.closeMachine i s wake else none
  | .awaitingClosed => if s.sm.closedLatch then c.awaitClosed i s wake else none
  | .waiting .suspended | .waiting .stopping | .left => none

/-- `stop` sets the latch, which completes the wait on it. -/
def stop (i : ℕ) : Option Connector := do
  let s ← c.subs[i]?
  match s.pc with
  | .waiting .suspended => some (c.setSub i { s with stopLatch := true, pc := .waiting .stopping })
  | _ => some (c.setSub i { s with stopLatch := true })

/-- The wait on the `cv` ends because the stop latch has decided the race. -/
def settle (i : ℕ) : Option Connector := do
  let s ← c.subs[i]?
  match s.pc with
  | .waiting .stopping => some (c.setSub i { s with pc := .waiting .stopped })
  | _ => none

end Connector

end Ftx

end BoostConnector
