import BoostConnector.Ftx.ChannelEvent

/-!
# The subscription state machine

`upstream_subscription_impl::state_machine` turns the events of a connection into the subscribe and
unsubscribe traffic of one channel. Every function of the source returns here the machine it leaves
behind and the calls it makes on the connection, in order. Payloads are kept as the JSON objects
that `json::serialize` is applied to.

`Move` says once what an input can do to a machine (`feed_move`), and the properties of whole input
sequences are derived from it.
-/

namespace BoostConnector

namespace Ftx

/-! ## The machine -/

inductive StateType where
  | down
  | opening
  | open
  | closing
  | closed
  deriving DecidableEq, Repr

/-- The members of `state_machine`. Of the map iterator only the topic it denotes is read, and of
the latch only whether it is set. -/
structure StateMachine where
  topic : ChannelMarketPair
  state : StateType := .down
  closeRequested : Bool := false
  closedLatch : Bool := false
  deriving DecidableEq, Repr

/-- What a handler does to the connection it was given. -/
inductive Effect where
  | send (payload : Json.Value)
  | drop
  /-- `assert(connection.is_up())` -/
  | assertUp
  /-- `assert(!"logic error - event seen when closed")` -/
  | assertNotClosed
  deriving Repr

/-- `make_subscribe_message`, before serialisation. -/
def makeSubscribeMessage (topic : ChannelMarketPair) (action : Bytes) : Json.Value :=
  .object [(ascii "channel", .string topic.channel), (ascii "market", .string topic.market),
    (ascii "op", .string action)]

namespace StateMachine

variable (sm : StateMachine)

def enterClosedState : StateMachine := { sm with state := .closed, closedLatch := true }

def enterClosingState : StateMachine × List Effect :=
  ({ sm with state := .closing }, [.send (makeSubscribeMessage sm.topic (ascii "unsubscribe"))])

def close : StateMachine × List Effect :=
  if sm.closeRequested then (sm, [])
  else
    let sm := { sm with closeRequested := true }
    match sm.state with
    | .down => (sm.enterClosedState, [])
    | .open => sm.enterClosingState
    | .opening | .closing | .closed => (sm, [])

def processDownEvent (e : ChannelEvent) : StateMachine × List Effect :=
  if e.isUp then
    ({ sm with state := .opening },
      [.assertUp, .send (makeSubscribeMessage sm.topic (ascii "subscribe"))])
  else (sm, [.drop])

def processOpeningEvent (e : ChannelEvent) : StateMachine × List Effect :=
  if e.isDown then ({ sm with state := .down }, [])
  else if e.isSubscribed then
    if sm.closeRequested then sm.enterClosingState else ({ sm with state := .open }, [])
  else (sm, [.drop])

/-- Only an integer `code` of 20001 has a consequence. -/
def handleInfo (o : Json.Members) : List Effect :=
  match Json.ifContains o (ascii "code") with
  | some (.int64 code) => if code = 20001 then [.drop] else []
  | _ => []

def handlePartial (_ : Json.Members) : List Effect := []

def handleUpdate (_ : Json.Members) : List Effect := []

def handleError (_ : Json.Members) : List Effect := [.drop]

def processOpenEvent (e : ChannelEvent) : StateMachine × List Effect :=
  if e.isDown then ({ sm with state := .down }, [])
  else if e.isUp then (sm, [])
  else
    match e.decodeResponse with
    | some (o, type) =>
      if type = ascii "info" then (sm, handleInfo o)
      else if type = ascii "partial" then (sm, handlePartial o)
      else if type = ascii "update" then (sm, handleUpdate o)
      else (sm, handleError o)
    -- an accessor threw and the handler's `catch` dropped the connection
    | none => (sm, [.drop])

def processClosingEvent (e : ChannelEvent) : StateMachine × List Effect :=
  if e.isDown then (sm.enterClosedState, [])
  else if e.isUp then (sm, [])
  else
    match e.decodeResponse with
    | some (o, type) =>
      if type = ascii "info" then (sm, handleInfo o)
      else if type = ascii "partial" then (sm, handlePartial o)
      else if type = ascii "update" then (sm, handleUpdate o)
      else if type = ascii "unsubscribed" then (sm.enterClosedState, [])
      else (sm, handleError o)
    | none => (sm, [.drop])

/-- With asserts compiled out the event is ignored. -/
def processClosedEvent (_ : ChannelEvent) : StateMachine × List Effect := (sm, [.assertNotClosed])

def processEvent (e : ChannelEvent) : StateMachine × List Effect :=
  match sm.state with
  | .down => sm.processDownEvent e
  | .opening => sm.processOpeningEvent e
  | .open => sm.processOpenEvent e
  | .closing => sm.processClosingEvent e
  | .closed => sm.processClosedEvent e

end StateMachine

/-! ## Inputs and moves -/

/-- What the outside can do to a machine. -/
inductive Input where
  | close
  | event (e : ChannelEvent)
  deriving Repr

def StateMachine.feed (sm : StateMachine) : Input → StateMachine × List Effect
  | .close => sm.close
  | .event e => sm.processEvent e

/-- The calls on the connection that leave no trace in the traffic of the channel. -/
def Effect.IsQuiet : Effect → Prop
  | .send _ => False
  | _ => True

/-- What an input can do: each constructor is one way the machine can move. -/
inductive Move (sm : StateMachine) : Input → StateMachine → List Effect → Prop
  | ignored {e : ChannelEvent} {effects : List Effect} (hquiet : ∀ x ∈ effects, x.IsQuiet)
      (hdown : e.isDown = true → sm.state = .down ∨ sm.state = .closed)
      (hup : e.isUp = true → sm.state ≠ .down) : Move sm (.event e) sm effects
  | up {e : ChannelEvent} (hstate : sm.state = .down) (he : e.isUp = true) :
      Move sm (.event e) { sm with state := .opening }
        [.assertUp, .send (makeSubscribeMessage sm.topic (ascii "subscribe"))]
  | lost {e : ChannelEvent} (hstate : sm.state = .opening ∨ sm.state = .open)
      (he : e.isDown = true) : Move sm (.event e) { sm with state := .down } []
  | subscribed {e : ChannelEvent} (hstate : sm.state = .opening) (he : e.isSubscribed = true)
      (hclose : sm.closeRequested = false) : Move sm (.event e) { sm with state := .open } []
  | subscribedClosing {e : ChannelEvent} (hstate : sm.state = .opening)
      (he : e.isSubscribed = true) (hclose : sm.closeRequested = true) :
      Move sm (.event e) { sm with state := .closing }
        [.send (makeSubscribeMessage sm.topic (ascii "unsubscribe"))]
  | closedDown {e : ChannelEvent} (hstate : sm.state = .closing) (he : e.isDown = true) :
      Move sm (.event e) sm.enterClosedState []
  | unsubscribed {e : ChannelEvent} (hstate : sm.state = .closing) (he : e.isUnsubscribed = true) :
      Move sm (.event e) sm.enterClosedState []
  | closeAgain (hclose : sm.closeRequested = true) : Move sm .close sm []
  | closeNoted (hclose : sm.closeRequested = false)
      (hstate : sm.state = .opening ∨ sm.state = .closing ∨ sm.state = .closed) :
      Move sm .close { sm with closeRequested := true } []
  | closeDown (hclose : sm.closeRequested = false) (hstate : sm.state = .down) :
      Move sm .close { sm with closeRequested := true, state := .closed, closedLatch := true } []
  | closeOpen (hclose : sm.closeRequested = false) (hstate : sm.state = .open) :
      Move sm .close { sm with closeRequested := true, state := .closing }
        [.send (makeSubscribeMessage sm.topic (ascii "unsubscribe"))]

namespace StateMachine

variable {sm : StateMachine}

theorem handleInfo_isQuiet (o : Json.Members) : ∀ x ∈ handleInfo o, x.IsQuiet := by
  intro x hx
  unfold handleInfo at hx
  split at hx
  · split_ifs at hx with hcode
    · rw [List.mem_singleton.mp hx]
      trivial
    · exact absurd hx List.not_mem_nil
  · exact absurd hx List.not_mem_nil

theorem close_move : Move sm .close sm.close.1 sm.close.2 := by
  unfold close
  cases hclose : sm.closeRequested with
  | true => exact .closeAgain hclose
  | false =>
    cases hstate : sm.state with
    | down => simpa [enterClosedState] using Move.closeDown hclose hstate
    | «open» => simpa [enterClosingState] using Move.closeOpen hclose hstate
    | opening => simpa [hstate] using Move.closeNoted hclose (.inl hstate)
    | closing => simpa [hstate] using Move.closeNoted hclose (.inr (.inl hstate))
    | closed => simpa [hstate] using Move.closeNoted hclose (.inr (.inr hstate))

theorem processDownEvent_move (hstate : sm.state = .down) (e : ChannelEvent) :
    Move sm (.event e) (sm.processDownEvent e).1 (sm.processDownEvent e).2 := by
  unfold processDownEvent
  split_ifs with hup
  · exact .up hstate hup
  · exact .ignored (by simp [Effect.IsQuiet]) (fun _ ↦ .inl hstate) (fun h ↦ absurd h hup)

theorem processOpeningEvent_move (hstate : sm.state = .opening) (e : ChannelEvent) :
    Move sm (.event e) (sm.processOpeningEvent e).1 (sm.processOpeningEvent e).2 := by
  unfold processOpeningEvent
  split_ifs with hdown hsub hclose
  · exact .lost (.inl hstate) hdown
  · exact .subscribedClosing hstate hsub hclose
  · exact .subscribed hstate hsub (Bool.eq_false_iff.mpr hclose)
  · exact .ignored (by simp [Effect.IsQuiet]) (fun h ↦ absurd h hdown) (fun _ ↦ by simp [hstate])

theorem processOpenEvent_move (hstate : sm.state = .open) (e : ChannelEvent) :
    Move sm (.event e) (sm.processOpenEvent e).1 (sm.processOpenEvent e).2 := by
  have hignored (hdown : e.isDown ≠ true) {effects : List Effect}
      (hquiet : ∀ x ∈ effects, x.IsQuiet) : Move sm (.event e) sm effects :=
    .ignored hquiet (fun h ↦ absurd h hdown) (fun _ ↦ by simp [hstate])
  unfold processOpenEvent
  split_ifs with hdown hup
  · exact .lost (.inr hstate) hdown
  · exact hignored hdown (by simp)
  · split
    · split_ifs
      · exact hignored hdown (handleInfo_isQuiet _)
      · exact hignored hdown (by simp [handlePartial])
      · exact hignored hdown (by simp [handleUpdate])
      · exact hignored hdown (by simp [handleError, Effect.IsQuiet])
    · exact hignored hdown (by simp [Effect.IsQuiet])

theorem processClosingEvent_move (hstate : sm.state = .closing) (e : ChannelEvent) :
    Move sm (.event e) (sm.processClosingEvent e).1 (sm.processClosingEvent e).2 := by
  have hignored (hdown : e.isDown ≠ true) {effects : List Effect}
      (hquiet : ∀ x ∈ effects, x.IsQuiet) : Move sm (.event e) sm effects :=
    .ignored hquiet (fun h ↦ absurd h hdown) (fun _ ↦ by simp [hstate])
  unfold processClosingEvent
  split_ifs with hdown hup
  · exact .closedDown hstate hdown
  · exact hignored hdown (by simp)
  · split
    · rename_i o type hdecode
      split_ifs with _ _ _ htype
      · exact hignored hdown (handleInfo_isQuiet _)
      · exact hignored hdown (by simp [handlePartial])
      · exact hignored hdown (by simp [handleUpdate])
      · exact .unsubscribed hstate (by simp [ChannelEvent.isUnsubscribed, hdecode, htype])
      · exact hignored hdown (by simp [handleError, Effect.IsQuiet])
    · exact hignored hdown (by simp [Effect.IsQuiet])

theorem processEvent_move (e : ChannelEvent) :
    Move sm (.event e) (sm.processEvent e).1 (sm.processEvent e).2 := by
  unfold processEvent
  cases hstate : sm.state with
  | down => exact processDownEvent_move hstate e
  | opening => exact processOpeningEvent_move hstate e
  | «open» => exact processOpenEvent_move hstate e
  | closing => exact processClosingEvent_move hstate e
  | closed =>
    exact .ignored (by simp [processClosedEvent, Effect.IsQuiet]) (fun _ ↦ .inr hstate)
      (fun _ ↦ by simp [hstate])

/-- **What an input can do.** -/
theorem feed_move (sm : StateMachine) (i : Input) : Move sm i (sm.feed i).1 (sm.feed i).2 := by
  cases i with
  | close => exact close_move
  | event e => exact processEvent_move e

end StateMachine

end Ftx

end BoostConnector
