import BoostConnector.Json.Value

/-!
# Channel events

What a connection tells the state machine of a subscription: that the connection has come up or
gone down, an error code, or a JSON response received on the channel.
-/

namespace BoostConnector

namespace Ftx

/-- The topic of a subscription: the key of the connector's channel map. -/
structure ChannelMarketPair where
  channel : Bytes
  market : Bytes
  deriving DecidableEq, Repr, Inhabited

inductive ChannelEvent where
  | connectionDown
  | connectionUp
  | response (v : Json.Value)
  | error (ec : ℤ)
  deriving Repr

namespace ChannelEvent

def isDown : ChannelEvent → Bool
  | connectionDown => true
  | _ => false

def isUp : ChannelEvent → Bool
  | connectionUp => true
  | _ => false

def isError : ChannelEvent → Bool
  | error _ => true
  | _ => false

def isResponse : ChannelEvent → Bool
  | response _ => true
  | _ => false

/-- `get_response`, which throws when the event is not a response. -/
def getResponse : ChannelEvent → Option Json.Value
  | response v => some v
  | _ => none

/-- The object and its `type` string as the `try` blocks of the handlers read them; `none` where
one of the accessors throws. -/
def decodeResponse (e : ChannelEvent) : Option (Json.Members × Bytes) := do
  let v ← e.getResponse
  let o ← v.asObject
  let type ← Json.stringAt o (ascii "type")
  return (o, type)

/-- Unlike `decodeResponse` this walks the variant with the non-throwing accessors, and a malformed
value is simply not a `subscribed` response. -/
def isSubscribed : ChannelEvent → Bool
  | response v =>
    match v with
    | .object o =>
      match Json.ifContains o (ascii "type") with
      | some (.string s) => s == ascii "subscribed"
      | _ => false
    | _ => false
  | _ => false

/-- A response of type `unsubscribed`, as `process_closing_event` recognises it. -/
def isUnsubscribed (e : ChannelEvent) : Bool :=
  match e.decodeResponse with
  | some (_, type) => type == ascii "unsubscribed"
  | none => false

/-- The two ways of reading the type agree: `is_subscribed` is the test the handlers would make. -/
theorem isSubscribed_iff_decodeResponse {e : ChannelEvent} :
    e.isSubscribed = true ↔ ∃ o, e.decodeResponse = some (o, ascii "subscribed") := by
  cases e with
  | connectionDown => simp [isSubscribed, decodeResponse, getResponse]
  | connectionUp => simp [isSubscribed, decodeResponse, getResponse]
  | error ec => simp [isSubscribed, decodeResponse, getResponse]
  | response v =>
    cases v with
    | object o =>
      cases h : Json.ifContains o (ascii "type") with
      | none => simp [isSubscribed, decodeResponse, getResponse, Json.Value.asObject,
          Json.stringAt, h]
      | some w =>
        cases w <;> simp [isSubscribed, decodeResponse, getResponse, Json.Value.asObject,
          Json.stringAt, Json.Value.asString, h]
    | _ => simp [isSubscribed, decodeResponse, getResponse, Json.Value.asObject]

@[simp] theorem isSubscribed_of_isDown {e : ChannelEvent} (h : e.isDown = true) :
    e.isSubscribed = false := by
  cases e <;> simp_all [isDown, isSubscribed]

end ChannelEvent

end Ftx

end BoostConnector
