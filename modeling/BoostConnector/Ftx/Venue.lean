import BoostConnector.Collections.ListPool
import BoostConnector.Ftx.ChannelOwnership
import BoostConnector.Ftx.EventsOnce
import BoostConnector.Ftx.MessageIsolation
import BoostConnector.Transition.Conversation

/-!
# The connector and its venue

The other side of the websocket, as far as the subscriptions depend on it. A venue takes the
requests that were written to it in their order and answers each with a message on the channel and
market of the request: it confirms a `subscribe` to what it does not publish and an `unsubscribe`
from what it does, and refuses anything else. What it publishes it may send on at any time. Messages
are read in the order in which they were sent, and what one connection left behind is gone with the
next one.

The venue is the environment here, and what is said of it is what is assumed of it: also that it
takes no text that a user sends for a request (`Frame.request?`). The connector is the one of
`step`; nothing is assumed of it but what `Orderly` says of the order of its steps.
-/

namespace BoostConnector

namespace Ftx

open Conversation (Reply Request Talk)

open Transition

/-! ## Reading messages -/

/-- A payload that `make_subscribe_message` makes, read back. -/
def readRequest (payload : Json.Value) : Option (ChannelMarketPair × Request) := do
  let o ← payload.asObject
  let channel ← Json.stringAt o (ascii "channel")
  let market ← Json.stringAt o (ascii "market")
  let op ← Json.stringAt o (ascii "op")
  if op = ascii "subscribe" then return ({ channel, market }, .ask)
  if op = ascii "unsubscribe" then return ({ channel, market }, .giveBack)
  none

/-- Texts that users send are taken to be no requests. -/
def Frame.request? : Frame → Option (ChannelMarketPair × Request)
  | .json payload => readRequest payload
  | .text _ | .login => none

def Frame.requestOn (index : ChannelMarketPair) (frame : Frame) : Option Request :=
  frame.request?.bind fun r ↦ if r.1 = index then some r.2 else none

/-- What a message on a channel says. -/
def replyKind (jframe : Json.Value) : Reply :=
  match (ChannelEvent.response jframe).decodeResponse with
  | some (o, type) =>
    if type = ascii "subscribed" then .granted
    else if type = ascii "unsubscribed" then .withdrawn
    else if type = ascii "partial" then .data
    else if type = ascii "update" then .data
    else if type = ascii "info" ∧ (StateMachine.handleInfo o).isEmpty then .data
    else .refused
  | none => .refused

def replyOn (index : ChannelMarketPair) (jframe : Json.Value) : Option Reply :=
  match route jframe with
  | some (.channel k) => if k = index then some (replyKind jframe) else none
  | _ => none

/-! ## The venue -/

/-- The frames that were written and not taken yet, what is published, the messages that were sent
and not read yet, and the requests that were refused. -/
structure Venue where
  inbox : List Frame := []
  published : ChannelMarketPair → Bool := fun _ ↦ false
  outbox : List Json.Value := []
  refused : List Frame := []

namespace Venue

variable (v : Venue)

/-- The conversation on a channel if `frames` are on their way to the venue. -/
def talk (frames : List Frame) (index : ChannelMarketPair) : Talk where
  requests := frames.filterMap (·.requestOn index)
  granted := v.published index
  replies := v.outbox.filterMap (replyOn index)

/-- The oldest frame is a request, and `reply` is a message that answers it. -/
def answer (reply : Json.Value) : Option Venue :=
  match v.inbox with
  | [] => none
  | frame :: inbox =>
    frame.request?.bind fun (index, r) ↦
      if replyOn index reply = some ((v.talk [] index).verdict r) then
        some { inbox
               published := Function.update v.published index r.wants
               outbox := v.outbox ++ [reply]
               refused := v.refused ++ if v.published index = r.wants then [frame] else [] }
      else none

/-- The oldest frame is something else. -/
def skip : Option Venue :=
  match v.inbox with
  | [] => none
  | frame :: inbox => if frame.request? = none then some { v with inbox } else none

/-- A pong, or data on a channel that is published. -/
def publish (jframe : Json.Value) : Option Venue :=
  match route jframe with
  | some .pong => some { v with outbox := v.outbox ++ [jframe] }
  | some (.channel index) =>
    if v.published index = true ∧ replyKind jframe = .data then
      some { v with outbox := v.outbox ++ [jframe] }
    else none
  | none => none

/-- A step of the connector that ends in `d`: it may open a connection or start to write. -/
def follow (a : Action) (d : Connector) : Venue :=
  match a with
  | .connected _ _ => {}
  | _ => { v with inbox := v.inbox ++ if a.isWriter then d.writing?.toList else [] }

end Venue

/-! ## The two together -/

structure Dialogue where
  connector : Connector := {}
  venue : Venue := {}

namespace Dialogue

inductive Action where
  /-- Anything but reading a text. -/
  | connector (a : Ftx.Action)
  /-- `read_state` is handed the oldest message. -/
  | receive
  | answer (reply : Json.Value)
  | skip
  | publish (jframe : Json.Value)

def step (args : Args) : Action → Dialogue → Option Dialogue
  | .connector a, o =>
    match a with
    | .readMessage (.text _) => none
    | a => (Ftx.step args a o.connector).map fun d ↦ ⟨d, o.venue.follow a d⟩
  | .receive, o =>
    match o.venue.outbox with
    | [] => none
    | jframe :: outbox =>
      (Ftx.step args (.readMessage (.text (some jframe))) o.connector).map fun d ↦
        ⟨d, { o.venue with outbox }⟩
  | .answer reply, o => (o.venue.answer reply).map fun venue ↦ { o with venue }
  | .skip, o => o.venue.skip.map fun venue ↦ { o with venue }
  | .publish jframe, o => (o.venue.publish jframe).map fun venue ↦ { o with venue }

/-- The run of the two on a list of actions, from a connector that was just started. -/
def run (args : Args) (actions : List Action) : Option Dialogue := exec (step args) actions {}

/-- What a step can do, and what it presupposes. -/
inductive Move (args : Args) (o : Dialogue) : Action → Dialogue → Prop
  | connector {b : Ftx.Action} {d : Connector}
      (htext : ∀ jframe?, b ≠ .readMessage (.text jframe?))
      (hd : Ftx.step args b o.connector = some d) :
      Move args o (.connector b) ⟨d, o.venue.follow b d⟩
  | receive {jframe : Json.Value} {outbox : List Json.Value} {d : Connector}
      (houtbox : o.venue.outbox = jframe :: outbox)
      (hd : Ftx.step args (.readMessage (.text (some jframe))) o.connector = some d) :
      Move args o .receive ⟨d, { o.venue with outbox }⟩
  | answer {reply : Json.Value} {frame : Frame} {inbox : List Frame} {index : ChannelMarketPair}
      {r : Request} (hinbox : o.venue.inbox = frame :: inbox)
      (hrequest : frame.request? = some (index, r))
      (hreply : replyOn index reply = some ((o.venue.talk [] index).verdict r)) :
      Move args o (.answer reply) { o with venue :=
        { inbox
          published := Function.update o.venue.published index r.wants
          outbox := o.venue.outbox ++ [reply]
          refused := o.venue.refused ++
            if o.venue.published index = r.wants then [frame] else [] } }
  | skip {frame : Frame} {inbox : List Frame} (hinbox : o.venue.inbox = frame :: inbox)
      (hrequest : frame.request? = none) :
      Move args o .skip { o with venue := { o.venue with inbox } }
  | publish {jframe : Json.Value} {venue : Venue} (hvenue : o.venue.publish jframe = some venue) :
      Move args o (.publish jframe) { o with venue }

variable {args : Args} {o o' : Dialogue}

theorem step_connector {b : Ftx.Action} (htext : ∀ jframe?, b ≠ .readMessage (.text jframe?)) :
    step args (.connector b) o =
      (Ftx.step args b o.connector).map fun d ↦ ⟨d, o.venue.follow b d⟩ := by
  unfold step
  dsimp only
  split
  · exact absurd rfl (htext _)
  · rfl

theorem step_move {a : Action} (hstep : step args a o = some o') : Move args o a o' := by
  cases a with
  | connector b =>
    by_cases htext : ∃ jframe?, b = .readMessage (.text jframe?)
    · obtain ⟨jframe?, rfl⟩ := htext
      exact absurd hstep (by simp [step])
    · have htext' : ∀ jframe?, b ≠ .readMessage (.text jframe?) := fun j hj ↦ htext ⟨j, hj⟩
      rw [step_connector htext', Option.map_eq_some_iff] at hstep
      obtain ⟨d, hd, rfl⟩ := hstep
      exact .connector htext' hd
  | receive =>
    rcases houtbox : o.venue.outbox with _ | ⟨jframe, outbox⟩
    · simp [step, houtbox] at hstep
    · simp only [step, houtbox, Option.map_eq_some_iff] at hstep
      obtain ⟨d, hd, rfl⟩ := hstep
      exact .receive houtbox hd
  | answer reply =>
    obtain ⟨venue, hvenue, rfl⟩ := Option.map_eq_some_iff.mp hstep
    unfold Venue.answer at hvenue
    rcases hinbox : o.venue.inbox with _ | ⟨frame, inbox⟩
    · simp [hinbox] at hvenue
    · simp only [hinbox, Option.bind_eq_some_iff] at hvenue
      obtain ⟨⟨index, r⟩, hrequest, hvenue⟩ := hvenue
      obtain ⟨hreply, hvenue⟩ := Option.ite_none_right_eq_some.mp hvenue
      obtain rfl := Option.some_inj.mp hvenue
      exact .answer hinbox hrequest hreply
  | skip =>
    obtain ⟨venue, hvenue, rfl⟩ := Option.map_eq_some_iff.mp hstep
    unfold Venue.skip at hvenue
    rcases hinbox : o.venue.inbox with _ | ⟨frame, inbox⟩
    · simp [hinbox] at hvenue
    · simp only [hinbox] at hvenue
      obtain ⟨hrequest, hvenue⟩ := Option.ite_none_right_eq_some.mp hvenue
      obtain rfl := Option.some_inj.mp hvenue
      exact .skip hinbox hrequest
  | publish jframe =>
    obtain ⟨venue, hvenue, rfl⟩ := Option.map_eq_some_iff.mp hstep
    exact .publish hvenue

/-- The step of the connector that an action contains. -/
def Action.connector? (o : Dialogue) : Action → Option Ftx.Action
  | .connector a => some a
  | .receive => o.venue.outbox.head?.map fun jframe ↦ .readMessage (.text (some jframe))
  | _ => none

/-- The steps in which a channel is taken only while it is free and in which everybody is told of
the connection once. -/
def Orderly (a : Action) (o : Dialogue) : Prop :=
  ∀ b ∈ a.connector? o, TakesFree b o.connector ∧ InformsAll b o.connector

instance (a : Action) (o : Dialogue) : Decidable (Orderly a o) :=
  inferInstanceAs (Decidable (∀ b ∈ a.connector? o, _ ∧ _))

theorem connector?_receive {jframe : Json.Value} {outbox : List Json.Value}
    (houtbox : o.venue.outbox = jframe :: outbox) :
    Action.receive.connector? o = some (.readMessage (.text (some jframe))) := by
  simp [Action.connector?, houtbox]

/-- Every step of the two is one of the connector or leaves it alone. -/
theorem connector_of_step {a : Action} (hstep : step args a o = some o') :
    o'.connector = o.connector ∨
      ∃ b ∈ a.connector? o, Ftx.step args b o.connector = some o'.connector := by
  cases step_move hstep with
  | @connector b d htext hd => exact .inr ⟨b, rfl, hd⟩
  | receive houtbox hd => exact .inr ⟨_, connector?_receive houtbox, hd⟩
  | _ => exact .inl rfl

/-- What every step of the connector keeps is kept by the two. -/
theorem connector_invariant {I : Connector → Prop}
    (hI : ∀ {b c d}, I c → Ftx.step args b c = some d → I d) {a : Action} (h : I o.connector)
    (hstep : step args a o = some o') : I o'.connector := by
  rcases connector_of_step hstep with hsame | ⟨b, -, hd⟩
  · exact hsame ▸ h
  · exact hI h hd

theorem run_connector {I : Connector → Prop}
    (hI : ∀ {b c d}, I c → Ftx.step args b c = some d → I d) (hfresh : I {})
    {actions : List Action} (hrun : run args actions = some o) : I o.connector :=
  exec_invariant (fun o : Dialogue ↦ I o.connector) (fun h hstep ↦ connector_invariant hI h hstep)
    hfresh hrun

end Dialogue

end Ftx

end BoostConnector
