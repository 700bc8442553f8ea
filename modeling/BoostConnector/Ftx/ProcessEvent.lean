import BoostConnector.Ftx.StateMachine

/-!
# Exceptions while an event is processed

`StateMachine.processEvent` is what an event does in the end. Here the handlers are taken with the
exceptions on the way: `get`, `as_object`, `at` and `as_string` throw, two of the handlers catch
what they throw, and two do not need to since `is_subscribed` asks without throwing. The only other
thing that can throw is closing the socket when the connection is dropped, which is a parameter.

Whatever the event, the handlers leave the machine that `StateMachine.processEvent` says, and an
exception that gets out is the one from the socket (`processEvent_performs`). So malformed events
neither escape nor derail the machine (`processEvent_edges`).
-/

namespace BoostConnector

namespace Ftx

/-! ## Handlers -/

/-- What the handlers see thrown. All of it derives from `std::exception`. -/
inductive Exception where
  /-- `get` of another alternative. -/
  | badVariantAccess
  /-- `as_object` or `as_string` of another kind. -/
  | wrongKind
  /-- `at` without such a member. -/
  | outOfRange
  | systemError
  deriving DecidableEq, Repr

/-- A machine and its connection: what has been asked of the connection, and whether `on_drop_` is
set. -/
structure Session where
  sm : StateMachine
  effects : List Effect := []
  onDrop : Bool

/-- An exception leaves behind what was done before it. -/
abbrev Handler := EStateM Exception Session

namespace Handler

def getResponse : ChannelEvent → Handler Json.Value
  | .response v => pure v
  | _ => throw .badVariantAccess

def asObject : Json.Value → Handler Json.Members
  | .object o => pure o
  | _ => throw .wrongKind

def asString : Json.Value → Handler Bytes
  | .string s => pure s
  | _ => throw .wrongKind

def atMember (o : Json.Members) (name : Bytes) : Handler Json.Value :=
  match Json.ifContains o name with
  | some v => pure v
  | none => throw .outOfRange

def perform (effect : Effect) : Handler Unit :=
  modify fun s ↦ { s with effects := s.effects ++ [effect] }

def setState (state : StateType) : Handler Unit :=
  modify fun s ↦ { s with sm := { s.sm with state := state } }

/-- `make_subscribe_message` and `connection.send`. -/
def sendSubscribeMessage (action : Bytes) : Handler Unit := do
  let s ← get
  perform (.send (makeSubscribeMessage s.sm.topic action))

def enterClosedState : Handler Unit :=
  modify fun s ↦ { s with sm := s.sm.enterClosedState }

def enterClosingState : Handler Unit := do
  setState .closing
  sendSubscribeMessage (ascii "unsubscribe")

-- what `close` of the TCP socket returns or throws
variable (close : Except Exception Unit)

/-- `connection.drop()`: the function in `on_drop_` is called once. -/
def drop : Handler Unit := do
  perform .drop
  let s ← get
  if s.onDrop then
    set { s with onDrop := false }
    ofExcept close

def handleInfo (o : Json.Members) : Handler Unit :=
  match Json.ifContains o (ascii "code") with
  | some (.int64 code) => if code = 20001 then drop close else pure ()
  | _ => pure ()

def handlePartial (_ : Json.Members) : Handler Unit := pure ()

def handleUpdate (_ : Json.Members) : Handler Unit := pure ()

def handleError (_ : Json.Members) : Handler Unit := drop close

def processDownEvent (e : ChannelEvent) : Handler Unit :=
  if e.isUp then do
    perform .assertUp
    setState .opening
    sendSubscribeMessage (ascii "subscribe")
  else drop close

def processOpeningEvent (e : ChannelEvent) : Handler Unit :=
  if e.isDown then setState .down
  else if e.isSubscribed then do
    let s ← get
    if s.sm.closeRequested then enterClosingState else setState .open
  else drop close

def processOpenEvent (e : ChannelEvent) : Handler Unit :=
  if e.isDown then setState .down
  else if e.isUp then pure ()
  else
    try
      let o ← asObject (← getResponse e)
      let type ← asString (← atMember o (ascii "type"))
      if type = ascii "info" then handleInfo close o
      else if type = ascii "partial" then handlePartial o
      else if type = ascii "update" then handleUpdate o
      else handleError close o
    catch _ => drop close

def processClosingEvent (e : ChannelEvent) : Handler Unit :=
  if e.isDown then enterClosedState
  else if e.isUp then pure ()
  else
    try
      let o ← asObject (← getResponse e)
      let type ← asString (← atMember o (ascii "type"))
      if type = ascii "info" then handleInfo close o
      else if type = ascii "partial" then handlePartial o
      else if type = ascii "update" then handleUpdate o
      else if type = ascii "unsubscribed" then enterClosedState
      else handleError close o
    catch _ => drop close

def processClosedEvent (_ : ChannelEvent) : Handler Unit := perform .assertNotClosed

def processEvent (e : ChannelEvent) : Handler Unit := do
  let s ← get
  match s.sm.state with
  | .down => processDownEvent close e
  | .opening => processOpeningEvent close e
  | .open => processOpenEvent close e
  | .closing => processClosingEvent close e
  | .closed => processClosedEvent e

/-! ## What a handler comes to -/

/-- The session that is left, whether or not an exception got out. -/
def session : EStateM.Result Exception Session Unit → Session
  | .ok _ s => s
  | .error _ s => s

def payload? : Effect → Option Json.Value
  | .send payload => some payload
  | _ => none

/-- The messages sent. -/
def sent (effects : List Effect) : List Json.Value := effects.filterMap payload?

/-- The handler does what the machine says, up to calls of `drop` that were cut short by the socket,
and lets out nothing but what the socket throws. -/
structure Performs (close : Except Exception Unit) (s : Session)
    (outcome : StateMachine × List Effect) (r : EStateM.Result Exception Session Unit) :
    Prop where
  machine : (session r).sm = outcome.1
  sent : sent (session r).effects = sent s.effects ++ sent outcome.2
  effects : close = .ok () → (session r).effects = s.effects ++ outcome.2
  escapes : ∀ ex s', r = .error ex s' → close = .error ex

variable {close} {s : Session} {sm : StateMachine} {outcome : StateMachine × List Effect}

theorem sent_append (effects effects' : List Effect) :
    sent (effects ++ effects') = sent effects ++ sent effects' := List.filterMap_append

/-- Without an exception the machine and the effects are all there is to say. -/
theorem performs_ok {s' : Session} (hmachine : s'.sm = outcome.1)
    (heffects : s'.effects = s.effects ++ outcome.2) : Performs close s outcome (.ok () s') where
  machine := hmachine
  sent := by rw [session, heffects, sent_append]
  effects _ := heffects
  escapes _ _ h := by contradiction

theorem drop_performs (close : Except Exception Unit) (s : Session) :
    Performs close s (s.sm, [.drop]) (drop close s) := by
  obtain ⟨sm, effects, onDrop⟩ := s
  cases onDrop with
  | false => exact performs_ok rfl rfl
  | true =>
    cases close with
    | ok _ => exact performs_ok rfl rfl
    | error ex =>
      refine ⟨rfl, sent_append effects [.drop], fun hclose ↦ by contradiction, ?_⟩
      intro ex' s' h
      obtain ⟨rfl, -⟩ := EStateM.Result.error.inj h
      rfl

/-! ## The `try` blocks -/

theorem catch_of_ok {body : Handler Unit} {handle : Exception → Handler Unit} {s' : Session}
    (h : body s = .ok () s') : (tryCatch body handle) s = .ok () s' := by
  simp only [tryCatch, tryCatchThe, MonadExceptOf.tryCatch, EStateM.tryCatch, h]

theorem catch_of_error {body : Handler Unit} {handle : Exception → Handler Unit} {ex : Exception}
    {s' : Session} (h : body s = .error ex s') : (tryCatch body handle) s = handle ex s' := by
  simp only [tryCatch, tryCatchThe, MonadExceptOf.tryCatch, EStateM.tryCatch, h]
  rfl

/-- What is thrown by the accessors is caught, and the connection dropped. -/
theorem catch_performs_of_error {body : Handler Unit} {ex : Exception}
    (h : body s = .error ex s) :
    Performs close s (s.sm, [.drop]) (tryCatch body (fun _ ↦ drop close) s) := by
  rw [catch_of_error h]
  exact drop_performs close s

/-- A body in which the socket threw is followed by another `drop`. -/
theorem catch_performs {body : Handler Unit} (h : Performs close s outcome (body s)) :
    Performs close s outcome (tryCatch body (fun _ ↦ drop close) s) := by
  cases hbody : body s with
  | ok _ s' =>
    rw [catch_of_ok hbody]
    exact hbody ▸ h
  | error ex s' =>
    rw [catch_of_error hbody]
    rw [hbody] at h
    have hclose : close = .error ex := h.escapes ex s' rfl
    have hdrop := drop_performs close s'
    refine ⟨hdrop.machine.trans h.machine, ?_, fun hok ↦ ?_, hdrop.escapes⟩
    · rw [hdrop.sent, ← h.sent]
      exact List.append_nil _
    · rw [hclose] at hok
      contradiction

/-- What the two `try` blocks do with the type of the response. -/
def withType (e : ChannelEvent) (k : Json.Members → Bytes → Handler Unit) : Handler Unit := do
  let o ← asObject (← getResponse e)
  let type ← asString (← atMember o (ascii "type"))
  k o type

theorem decodeResponse_eq_some_iff {e : ChannelEvent} {o : Json.Members} {type : Bytes} :
    e.decodeResponse = some (o, type) ↔
      e = .response (.object o) ∧ Json.ifContains o (ascii "type") = some (.string type) := by
  constructor
  · intro h
    obtain ⟨v, hv, h⟩ := Option.bind_eq_some_iff.mp h
    obtain ⟨o', ho, h⟩ := Option.bind_eq_some_iff.mp h
    obtain ⟨type', htype, h⟩ := Option.bind_eq_some_iff.mp h
    obtain ⟨rfl, rfl⟩ := Prod.mk.inj (Option.some_inj.mp h)
    obtain ⟨w, hw, hstring⟩ := Option.bind_eq_some_iff.mp htype
    obtain rfl : e = .response v := by cases e <;> simp_all [ChannelEvent.getResponse]
    obtain rfl : v = .object o' := by cases v <;> simp_all [Json.Value.asObject]
    obtain rfl : w = .string type' := by cases w <;> simp_all [Json.Value.asString]
    exact ⟨rfl, hw⟩
  · rintro ⟨rfl, htype⟩
    simp [ChannelEvent.decodeResponse, ChannelEvent.getResponse, Json.Value.asObject,
      Json.stringAt, htype, Json.Value.asString]

theorem withType_of_some {e : ChannelEvent} {o : Json.Members} {type : Bytes}
    (h : e.decodeResponse = some (o, type)) (k : Json.Members → Bytes → Handler Unit)
    (s : Session) : withType e k s = k o type s := by
  obtain ⟨rfl, htype⟩ := decodeResponse_eq_some_iff.mp h
  have hat : atMember o (ascii "type") = pure (.string type) := by rw [atMember, htype]
  rw [withType, getResponse, pure_bind, asObject, pure_bind, hat, pure_bind, asString, pure_bind]

/-- One of the accessors throws. -/
theorem withType_of_none {e : ChannelEvent} (h : e.decodeResponse = none)
    (k : Json.Members → Bytes → Handler Unit) (s : Session) :
    ∃ ex, withType e k s = .error ex s := by
  cases e with
  | response v =>
    cases v with
    | object o =>
      rw [withType, getResponse, pure_bind, asObject, pure_bind]
      cases hcontains : Json.ifContains o (ascii "type") with
      | none =>
        have hat : atMember o (ascii "type") = throw .outOfRange := by rw [atMember, hcontains]
        rw [hat]
        exact ⟨.outOfRange, rfl⟩
      | some w =>
        have hat : atMember o (ascii "type") = pure w := by rw [atMember, hcontains]
        rw [hat, pure_bind]
        cases w with
        | string type =>
          rw [decodeResponse_eq_some_iff.mpr ⟨rfl, hcontains⟩] at h
          contradiction
        | _ => exact ⟨.wrongKind, rfl⟩
    | _ => exact ⟨.wrongKind, rfl⟩
  | _ => exact ⟨.badVariantAccess, rfl⟩

/-! ## The handlers perform what the machine says -/

theorem pure_performs (s : Session) :
    Performs close s (s.sm, []) ((pure () : Handler Unit) s) :=
  performs_ok rfl (List.append_nil _).symm

theorem handleInfo_performs (o : Json.Members) (s : Session) :
    Performs close s (s.sm, StateMachine.handleInfo o) (handleInfo close o s) := by
  cases hcode : Json.ifContains o (ascii "code") with
  | none =>
    simp only [handleInfo, StateMachine.handleInfo, hcode]
    exact pure_performs s
  | some w =>
    cases w with
    | int64 code =>
      simp only [handleInfo, StateMachine.handleInfo, hcode]
      split_ifs
      · exact drop_performs close s
      · exact pure_performs s
    | _ =>
      simp only [handleInfo, StateMachine.handleInfo, hcode]
      exact pure_performs s

/-- A test that the handler and the machine make alike. -/
theorem performs_ite {c : Prop} [Decidable c] {x y : Handler Unit}
    {outcome outcome' : StateMachine × List Effect} (hx : c → Performs close s outcome (x s))
    (hy : ¬c → Performs close s outcome' (y s)) :
    Performs close s (if c then outcome else outcome') ((if c then x else y : Handler Unit) s) := by
  split_ifs with hc
  · exact hx hc
  · exact hy hc

theorem processDownEvent_performs (e : ChannelEvent) (s : Session) :
    Performs close s (s.sm.processDownEvent e) (processDownEvent close e s) := by
  apply performs_ite
  · intro hup
    exact performs_ok rfl (List.append_assoc _ _ _)
  · intro hup
    exact drop_performs close s

theorem processOpeningEvent_performs (e : ChannelEvent) (s : Session) :
    Performs close s (s.sm.processOpeningEvent e) (processOpeningEvent close e s) := by
  apply performs_ite
  · intro hdown
    exact performs_ok rfl (List.append_nil _).symm
  intro hdown
  apply performs_ite
  · intro hsubscribed
    change Performs close s _ ((if s.sm.closeRequested then enterClosingState
      else setState .open : Handler Unit) s)
    apply performs_ite
    · exact fun _ ↦ performs_ok rfl rfl
    · exact fun _ ↦ performs_ok rfl (List.append_nil _).symm
  · intro hsubscribed
    exact drop_performs close s

/-- A `try` block performs what is done with the decoded response, or drops the connection. -/
theorem catch_withType_performs {e : ChannelEvent} {k : Json.Members → Bytes → Handler Unit}
    {act : Json.Members → Bytes → StateMachine × List Effect}
    (hk : ∀ o type, Performs close s (act o type) (k o type s)) :
    Performs close s
      (match e.decodeResponse with
        | some (o, type) => act o type
        | none => (s.sm, [.drop]))
      (tryCatch (withType e k) (fun _ ↦ drop close) s) := by
  cases hdecode : e.decodeResponse with
  | none =>
    obtain ⟨ex, hthrow⟩ := withType_of_none hdecode k s
    exact catch_performs_of_error hthrow
  | some decoded =>
    obtain ⟨o, type⟩ := decoded
    apply catch_performs
    rw [withType_of_some hdecode]
    exact hk o type

theorem processOpenEvent_performs (e : ChannelEvent) (s : Session) :
    Performs close s (s.sm.processOpenEvent e) (processOpenEvent close e s) := by
  apply performs_ite
  · intro hdown
    exact performs_ok rfl (List.append_nil _).symm
  intro hdown
  apply performs_ite
  · intro hup
    exact pure_performs s
  intro hup
  apply catch_withType_performs
  intro o type
  split_ifs
  · exact handleInfo_performs o s
  · exact pure_performs s
  · exact pure_performs s
  · exact drop_performs close s

theorem processClosingEvent_performs (e : ChannelEvent) (s : Session) :
    Performs close s (s.sm.processClosingEvent e) (processClosingEvent close e s) := by
  apply performs_ite
  · intro hdown
    exact performs_ok rfl (List.append_nil _).symm
  intro hdown
  apply performs_ite
  · intro hup
    exact pure_performs s
  intro hup
  apply catch_withType_performs
  intro o type
  split_ifs
  · exact handleInfo_performs o s
  · exact pure_performs s
  · exact pure_performs s
  · exact performs_ok rfl (List.append_nil _).symm
  · exact drop_performs close s

/-- **The handlers do what the machine says**, whatever is thrown on the way. -/
theorem processEvent_performs (close : Except Exception Unit) (e : ChannelEvent) (s : Session) :
    Performs close s (s.sm.processEvent e) (processEvent close e s) := by
  change Performs close s _ ((match s.sm.state with
    | .down => processDownEvent close e
    | .opening => processOpeningEvent close e
    | .open => processOpenEvent close e
    | .closing => processClosingEvent close e
    | .closed => processClosedEvent e : Handler Unit) s)
  rw [StateMachine.processEvent]
  cases s.sm.state with
  | down => exact processDownEvent_performs e s
  | opening => exact processOpeningEvent_performs e s
  | «open» => exact processOpenEvent_performs e s
  | closing => exact processClosingEvent_performs e s
  | closed => exact performs_ok rfl rfl

theorem processEvent_ok (hclose : close = .ok ()) (e : ChannelEvent) (s : Session) :
    ∃ s', processEvent close e s = .ok () s' := by
  have h := processEvent_performs close e s
  cases hrun : processEvent close e s with
  | ok _ s' => exact ⟨s', rfl⟩
  | error ex s' =>
    have hthrow := h.escapes ex s' hrun
    rw [hclose] at hthrow
    contradiction

end Handler

/-! ## Edges -/

/-- A response that is an object with this string as its `type`. -/
def ChannelEvent.HasType (e : ChannelEvent) (type : Bytes) : Prop :=
  ∃ o, e = .response (.object o) ∧ Json.ifContains o (ascii "type") = some (.string type)

/-- The ways from one state to another. -/
inductive Edge (sm : StateMachine) : ChannelEvent → StateType → Prop
  | up (hstate : sm.state = .down) : Edge sm .connectionUp .opening
  | down (hstate : sm.state = .opening ∨ sm.state = .open) : Edge sm .connectionDown .down
  | closedDown (hstate : sm.state = .closing) : Edge sm .connectionDown .closed
  | subscribed {e : ChannelEvent} (hstate : sm.state = .opening)
      (he : e.HasType (ascii "subscribed")) :
      Edge sm e (if sm.closeRequested then .closing else .open)
  | unsubscribed {e : ChannelEvent} (hstate : sm.state = .closing)
      (he : e.HasType (ascii "unsubscribed")) : Edge sm e .closed

theorem ChannelEvent.hasType_subscribed_iff {e : ChannelEvent} :
    e.HasType (ascii "subscribed") ↔ e.isSubscribed = true := by
  rw [isSubscribed_iff_decodeResponse]
  exact exists_congr fun o ↦ Handler.decodeResponse_eq_some_iff.symm

theorem ChannelEvent.hasType_unsubscribed_iff {e : ChannelEvent} :
    e.HasType (ascii "unsubscribed") ↔ e.isUnsubscribed = true := by
  have hiff : e.HasType (ascii "unsubscribed") ↔
      ∃ o, e.decodeResponse = some (o, ascii "unsubscribed") :=
    exists_congr fun o ↦ Handler.decodeResponse_eq_some_iff.symm
  rw [hiff, isUnsubscribed]
  cases e.decodeResponse with
  | none => simp
  | some decoded =>
    obtain ⟨o, type⟩ := decoded
    simp

namespace StateMachine

variable {sm : StateMachine} {e : ChannelEvent} {state : StateType}

theorem eq_connectionUp (h : e.isUp = true) : e = .connectionUp := by
  cases e <;> simp_all [ChannelEvent.isUp]

theorem eq_connectionDown (h : e.isDown = true) : e = .connectionDown := by
  cases e <;> simp_all [ChannelEvent.isDown]

/-- A way out is taken. -/
theorem processEvent_state_of_edge (h : Edge sm e state) : (sm.processEvent e).1.state = state := by
  cases h with
  | up hstate => simp [processEvent, hstate, processDownEvent, ChannelEvent.isUp]
  | down hstate =>
    rcases hstate with hstate | hstate
    · simp [processEvent, hstate, processOpeningEvent, ChannelEvent.isDown]
    · simp [processEvent, hstate, processOpenEvent, ChannelEvent.isDown]
  | closedDown hstate =>
    simp [processEvent, hstate, processClosingEvent, ChannelEvent.isDown, enterClosedState]
  | subscribed hstate he =>
    have hsubscribed := ChannelEvent.hasType_subscribed_iff.mp he
    obtain ⟨o, rfl, -⟩ := he
    cases hclose : sm.closeRequested with
    | true =>
      simp [processEvent, hstate, processOpeningEvent, ChannelEvent.isDown, hsubscribed, hclose,
        enterClosingState]
    | false =>
      simp [processEvent, hstate, processOpeningEvent, ChannelEvent.isDown, hsubscribed, hclose]
  | unsubscribed hstate he =>
    obtain ⟨o, rfl, htype⟩ := he
    have hdecode := Handler.decodeResponse_eq_some_iff.mpr ⟨rfl, htype⟩
    have hkinds : ascii "unsubscribed" ≠ ascii "info" ∧ ascii "unsubscribed" ≠ ascii "partial" ∧
        ascii "unsubscribed" ≠ ascii "update" := by decide
    simp [processEvent, hstate, processClosingEvent, ChannelEvent.isDown, ChannelEvent.isUp,
      hdecode, hkinds, enterClosedState]

/-- An event that changes anything takes a way out. -/
theorem edge_or_ignored {sm' : StateMachine} {effects : List Effect}
    (h : Move sm (.event e) sm' effects) :
    Edge sm e sm'.state ∨ sm' = sm ∧ ∀ x ∈ effects, x.IsQuiet := by
  cases h with
  | ignored hquiet => exact .inr ⟨rfl, hquiet⟩
  | up hstate he =>
    obtain rfl := eq_connectionUp he
    exact .inl (.up hstate)
  | lost hstate he =>
    obtain rfl := eq_connectionDown he
    exact .inl (.down hstate)
  | subscribed hstate he hclose =>
    have hedge := Edge.subscribed hstate (ChannelEvent.hasType_subscribed_iff.mpr he)
    rw [hclose] at hedge
    exact .inl hedge
  | subscribedClosing hstate he hclose =>
    have hedge := Edge.subscribed hstate (ChannelEvent.hasType_subscribed_iff.mpr he)
    rw [hclose] at hedge
    exact .inl hedge
  | closedDown hstate he =>
    obtain rfl := eq_connectionDown he
    exact .inl (.closedDown hstate)
  | unsubscribed hstate he =>
    exact .inl (.unsubscribed hstate (ChannelEvent.hasType_unsubscribed_iff.mpr he))

theorem processEvent_closeRequested : (sm.processEvent e).1.closeRequested = sm.closeRequested := by
  have h : Move sm (.event e) (sm.processEvent e).1 (sm.processEvent e).2 := processEvent_move e
  generalize sm.processEvent e = outcome at h ⊢
  obtain ⟨sm', effects⟩ := outcome
  dsimp only at h ⊢
  cases h <;> rfl

end StateMachine

theorem Handler.sent_eq_nil {effects : List Effect} (h : ∀ x ∈ effects, x.IsQuiet) :
    sent effects = [] := by
  rw [sent, List.filterMap_eq_nil_iff]
  intro x hx
  cases x with
  | send payload => exact (h _ hx).elim
  | _ => rfl

/-- **Malformed events neither escape nor derail the machine.** As long as a socket that is dropped
can be closed, no exception gets out. The state changes along the edges only and `close_requested`
never; an event without an edge changes nothing and sends nothing. -/
theorem Handler.processEvent_edges (close : Except Exception Unit) (e : ChannelEvent)
    (s : Session) :
    (close = .ok () → ∃ s', processEvent close e s = .ok () s') ∧
      (session (processEvent close e s)).sm.closeRequested = s.sm.closeRequested ∧
      (Edge s.sm e (session (processEvent close e s)).sm.state ∨
        (∀ state, ¬Edge s.sm e state) ∧ (session (processEvent close e s)).sm = s.sm ∧
          sent (session (processEvent close e s)).effects = sent s.effects) := by
  have h := processEvent_performs close e s
  refine ⟨fun hclose ↦ processEvent_ok hclose e s, ?_, ?_⟩
  · rw [h.machine, StateMachine.processEvent_closeRequested]
  · rw [h.machine, h.sent]
    by_cases hedge : ∃ state, Edge s.sm e state
    · obtain ⟨state, hedge⟩ := hedge
      refine .inl ?_
      rwa [StateMachine.processEvent_state_of_edge hedge]
    · have hnone : ∀ state, ¬Edge s.sm e state := not_exists.mp hedge
      have hmove := @StateMachine.processEvent_move s.sm e
      rcases StateMachine.edge_or_ignored hmove with hmoved | ⟨hsame, hquiet⟩
      · exact absurd hmoved (hnone _)
      · refine .inr ⟨hnone, hsame, ?_⟩
        rw [sent_eq_nil hquiet]
        exact List.append_nil _

/-- In the open state an array makes `as_object` throw, and the machine stays as it is. -/
theorem Handler.processEvent_edges_array :
    ∃ s', processEvent (.ok ()) (.response (.array []))
        ⟨⟨⟨ascii "trades", ascii "BTC/USD"⟩, .open, true, false⟩, [], true⟩ = .ok () s' ∧
      s'.sm = ⟨⟨ascii "trades", ascii "BTC/USD"⟩, .open, true, false⟩ ∧
      sent s'.effects = [] := by
  have hedges := processEvent_edges (.ok ()) (.response (.array []))
    ⟨⟨⟨ascii "trades", ascii "BTC/USD"⟩, .open, true, false⟩, [], true⟩
  obtain ⟨s', hs'⟩ := hedges.1 rfl
  have hmachine := hedges.2.2
  rw [hs'] at hmachine
  obtain hedge | ⟨_, hsame, hsent⟩ := hmachine
  · -- an array has no type, so there is no edge for it
    generalize (session _).sm.state = state at hedge
    rcases hedge with _ | _ | _ | ⟨hopening, _⟩ | ⟨hclosing, _⟩
    · cases hopening
    · cases hclosing
  · exact ⟨s', hs', hsame, hsent⟩

end Ftx

end BoostConnector
