import BoostConnector.Ftx.Connector
import BoostConnector.Transition.Run

/-!
# The connection loop

`run`, `reconnect` and the three tasks of a connection, and the step function of the whole machine.
Each task function runs from one `co_await` to the next; a cancelled one ends there with an
exception, which `run_ping_pong` swallows and the others let escape.
-/

namespace BoostConnector

namespace Ftx

/-- A message read from the websocket; `none` is a text on which `json::parse` throws. -/
inductive Message where
  | binary
  | text (jframe : Option Json.Value)

/-- What `read_state` does with a frame. -/
inductive Route where
  | pong
  | channel (index : ChannelMarketPair)

/-- Where a parsed frame goes; `none` where one of the accessors throws. -/
def route (jframe : Json.Value) : Option Route := do
  let o ← jframe.asObject
  let type ← Json.stringAt o (ascii "type")
  if type = ascii "pong" then return .pong
  let channel ← Json.stringAt o (ascii "channel")
  let market ← Json.stringAt o (ascii "market")
  return .channel { channel, market }

namespace Connector

variable (c : Connector)

/-! ## The reader -/

/-- The body of the loop of `read_state` for a message. -/
def handleMessage : Message → Connector
  | .binary => c
  | .text jframe? =>
    match jframe? with
    | none => { c with tcpClosed := true }
    | some jframe =>
      match route jframe with
      | none => { c with tcpClosed := true }
      | some .pong => { c with pongBuffer := some jframe }
      | some (.channel index) => c.tell (.response jframe) index

end Connector

namespace Tasks

variable (t : Tasks)

def endReader (o : Outcome) : Tasks :=
  match o with
  | .returned => { t with reader := .ended .returned }
  | .threw => { t with reader := .ended .threw }.cancel

def endWriter (o : Outcome) : Tasks :=
  match o with
  | .returned => { t with writer := .ended .returned }
  | .threw => { t with writer := .ended .threw }.cancel

/-- `co_await ws.async_read()` -/
def startRead : Tasks := if t.cancelled then t.endReader .threw else { t with reader := .reading }

end Tasks

namespace Connector

variable (c : Connector)

def beginReader : Option Connector := do
  let t ← c.phase.tasks?
  match t.reader with
  | .spawned => some (c.modifyTasks Tasks.startRead)
  | _ => none

def readMessage (msg : Message) : Option Connector := do
  let t ← c.phase.tasks?
  match t.reader with
  | .reading => some ((c.handleMessage msg).modifyTasks Tasks.startRead)
  | _ => none

def readError (order : List ChannelMarketPair) : Option Connector := do
  let t ← c.phase.tasks?
  match t.reader with
  | .reading =>
    if c.Walks order then
      some ((c.broadcast order .connectionDown).modifyTasks fun t ↦ t.endReader .returned)
    else none
  | _ => none

/-! ## The writer -/

/-- `write_queue.pop()` once it runs, and `ws.write` of what it returns. -/
def pop (t : Tasks) : Connector :=
  match c.writeQueue with
  | [] =>
    c.modifyTasks fun _ ↦
      if t.cancelled then t.endWriter .threw else { t with writer := .popping false }
  | frame :: rest =>
    { c with writeQueue := rest }.modifyTasks fun _ ↦
      if t.cancelled then t.endWriter .threw else { t with writer := .writing frame }

/-- `co_await write_queue.pop()` -/
def startPop (t : Tasks) : Connector :=
  if t.cancelled then c.modifyTasks fun _ ↦ t.endWriter .threw else c.pop t

def beginWriter : Option Connector := do
  let t ← c.phase.tasks?
  match t.writer with
  | .spawned => some (c.startPop t)
  | _ => none

def resumeWriter : Option Connector := do
  let t ← c.phase.tasks?
  match t.writer with
  | .popping true => some (c.pop t)
  | _ => none

/-- The outstanding write completes. -/
def written (ok : Bool) : Option Connector := do
  let t ← c.phase.tasks?
  match t.writer with
  | .writing _ =>
    if ok then some (c.startPop t) else some (c.modifyTasks fun _ ↦ t.endWriter .threw)
  | _ => none

/-! ## The keep-alive -/

/-- The head of the loop of `run_ping_pong`. -/
def ping : Connector :=
  (c.send (.text (ascii "\x7b\"op\": \"ping\"\x7d"))).modifyTasks fun t ↦
    { t with pinger := if t.cancelled then .ended .returned else .awaitingPong }

def beginPinger : Option Connector := do
  let t ← c.phase.tasks?
  match t.pinger with
  | .spawned => some c.ping
  | _ => none

/-- `pong_event.pop()` wins; `co_await timeout()` follows. -/
def pongPopped : Option Connector := do
  let t ← c.phase.tasks?
  match t.pinger, c.pongBuffer with
  | .awaitingPong, some _ =>
    some ({ c with pongBuffer := none }.modifyTasks fun t ↦
      { t with pinger := if t.cancelled then .ended .returned else .awaitingTimer })
  | _, _ => none

/-- `timeout()` wins; the exception thrown for it does not leave the function. -/
def pongTimeout : Option Connector := do
  let t ← c.phase.tasks?
  match t.pinger with
  | .awaitingPong => some (c.modifyTasks fun t ↦ { t with pinger := .ended .returned })
  | _ => none

def pingDue : Option Connector := do
  let t ← c.phase.tasks?
  match t.pinger with
  | .awaitingTimer => some c.ping
  | _ => none

/-! ## `reconnect` and `run` -/

/-- What `run` does when `reconnect` has returned: the wait for the timer throws if `run` was
cancelled. -/
def leaveReconnect : Connector :=
  { c with onDrop := false, phase := if c.stopRequested then .finished else .delay }

/-- `reconnect` up to `ws.connect`. A `co_await` of a cancelled `run` throws instead. -/
def beginReconnect (args : Args) : Connector :=
  if c.stopRequested then { c with phase := .finished }
  else if args.urlDecodes then
    { c with onDrop := true, handshaken := false, tcpClosed := false, phase := .connecting }
  else c.leaveReconnect

def reconnect (args : Args) : Option Connector :=
  match c.phase with
  | .idle | .delay => some (c.beginReconnect args)
  | _ => none

/-- `reconnect` from `ws.connect` to the announcement of the connection. -/
def opened (args : Args) (ok : Bool) : Connector :=
  { c with
    handshaken := ok
    pongBuffer := none
    writeQueue := if args.hasAuth then [.login] else [] }

/-- `reconnect` from `ws.connect`, which returns normally whether it succeeded or not, to the fork
of the tasks. -/
def connected (args : Args) (ok : Bool) (order : List ChannelMarketPair) : Option Connector :=
  match c.phase with
  | .connecting =>
    if c.Walks order then
      let c := (c.opened args ok).notifyConnectionState .up order
      some (if c.stopRequested then c.leaveReconnect else { c with phase := .online {} })
    else none
  | _ => none

/-- `reconnect` from the end of the tasks. Only the normal path announces that the connection is
down. -/
def join (order : List ChannelMarketPair) : Option Connector := do
  let t ← c.phase.tasks?
  match t.joined with
  | some .returned =>
    if c.Walks order then some (c.notifyConnectionState .down order).leaveReconnect else none
  | some .threw => some c.leaveReconnect
  | none => none

/-- `stop` cancels `run` and what it waits for. -/
def requestStop : Connector := { c with stopRequested := true }.modifyTasks Tasks.cancel

end Connector

/-! ## Steps -/

inductive Action where
  | start (topic : ChannelMarketPair)
  | stop (i : ℕ)
  | settle (i : ℕ)
  | resume (i : ℕ) (wake : Option ℕ)
  | send (payload : Bytes)
  | drop
  | requestStop
  | reconnect
  | connected (ok : Bool) (order : List ChannelMarketPair)
  | beginReader
  | readMessage (msg : Message)
  | readError (order : List ChannelMarketPair)
  | beginWriter
  | resumeWriter
  | written (ok : Bool)
  | beginPinger
  | pongPopped
  | pongTimeout
  | pingDue
  | join (order : List ChannelMarketPair)

/-- The subscription whose `run` goes on, and the wait that `cancel_one` picks if it releases. -/
def Action.resumed? : Action → Option (ℕ × Option ℕ)
  | .resume i wake => some (i, wake)
  | _ => none

/-- The actions of the connection loop, of its tasks and of the users of the connection. -/
def Action.IsConnection : Action → Prop
  | .start _ | .stop _ | .settle _ | .resume _ _ => False
  | _ => True

def step (args : Args) : Action → Connector → Option Connector
  | .start topic, c => some { c with subs := c.subs ++ [.new topic] }
  | .stop i, c => c.stop i
  | .settle i, c => c.settle i
  | .resume i wake, c => c.resume i wake
  | .send payload, c => some (c.send (.text payload))
  | .drop, c => some c.drop
  | .requestStop, c => some c.requestStop
  | .reconnect, c => c.reconnect args
  | .connected ok order, c => c.connected args ok order
  | .beginReader, c => c.beginReader
  | .readMessage msg, c => c.readMessage msg
  | .readError order, c => c.readError order
  | .beginWriter, c => c.beginWriter
  | .resumeWriter, c => c.resumeWriter
  | .written ok, c => c.written ok
  | .beginPinger, c => c.beginPinger
  | .pongPopped, c => c.pongPopped
  | .pongTimeout, c => c.pongTimeout
  | .pingDue, c => c.pingDue
  | .join order, c => c.join order

/-- The run of the machine on a list of actions, from a connector that was just started. -/
def run (args : Args) (actions : List Action) : Option Connector :=
  Transition.exec (step args) actions {}

end Ftx

end BoostConnector
