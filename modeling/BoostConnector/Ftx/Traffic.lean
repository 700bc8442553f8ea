import BoostConnector.Ftx.StateMachine
import BoostConnector.Transition.History
import BoostConnector.Transition.Run

/-!
# The traffic of one subscription

A fresh state machine is fed an arbitrary sequence of `close()` calls and channel events, and
everything that happens is written down in order: what it was fed, the calls it made on the
connection, and the moment it became closed.

The traffic of every such history is well formed (`traffic_wellFormed`): subscribes are separated by
disconnections, at most one unsubscribe follows the last of them and answers a confirmed
subscription, and the machine closes once, with no subscription outstanding. The invariant behind
it, `PhaseLedger`, reads the state as a summary of the history.
-/

namespace BoostConnector

namespace Ftx

open Transition History

/-! ## Observed machines -/

/-- One thing that happened to a machine. -/
inductive Item where
  | close
  | received (e : ChannelEvent)
  | did (x : Effect)
  /-- The state became `closed`. -/
  | closed

/-- A machine and its history, oldest item first. -/
structure Observed where
  machine : StateMachine
  history : List Item := []

def Input.item : Input → Item
  | .close => .close
  | .event e => .received e

/-- The item recorded when a move ends in `closed` that did not start there. -/
def closing (old new : StateMachine) : List Item :=
  if new.state = .closed ∧ old.state ≠ .closed then [.closed] else []

def observe (i : Input) (m : Observed) : Option Observed :=
  let next := m.machine.feed i
  some ⟨next.1, m.history ++ i.item :: (next.2.map .did ++ closing m.machine next.1)⟩

def fresh (topic : ChannelMarketPair) : Observed := { machine := { topic := topic } }

/-! ## Reading a history -/

namespace Item

/-- The machine sent the message that asks for `action` on the topic. -/
def Sends (topic : ChannelMarketPair) (action : Bytes) (x : Item) : Prop :=
  x = .did (.send (makeSubscribeMessage topic action))

/-- The machine was given an event of the kind `p`. -/
def Received (p : ChannelEvent → Bool) : Item → Prop
  | .received e => p e = true
  | _ => False

/-- Neither a message nor the closing of the machine. -/
def IsPlain : Item → Prop
  | .did x => x.IsQuiet
  | .closed => False
  | _ => True

end Item

/-- The payloads passed to `connection.send`, in order. -/
def sentMessages (t : List Item) : List Json.Value :=
  t.filterMap fun
    | .did (.send payload) => some payload
    | _ => none

section

variable (topic : ChannelMarketPair)

abbrev Item.Subscribes : Item → Prop := Item.Sends topic (ascii "subscribe")

abbrev Item.Unsubscribes : Item → Prop := Item.Sends topic (ascii "unsubscribe")

/-- No subscription is outstanding by reason of the connection: none was ever asked for, or the
connection has gone down since the last one. -/
def Settled (t : List Item) : Prop :=
  (∀ x ∈ t, ¬x.Subscribes topic) ∨
    ∃ s, SinceLast (Item.Subscribes topic) t s ∧ ∃ x ∈ s, x.Received ChannelEvent.isDown

/-- What has to be true of the past of an item: the conditions under which a subscribe may be sent,
an unsubscribe may be sent, and the machine may close. -/
structure Lawful (past : List Item) (x : Item) : Prop where
  subscribe : x.Subscribes topic → Settled topic past
  unsubscribe : x.Unsubscribes topic → ∃ s, SinceLast (Item.Subscribes topic) past s ∧
    (∃ y ∈ s, y.Received ChannelEvent.isSubscribed) ∧ ∀ y ∈ s, ¬y.Received ChannelEvent.isDown
  closed : x = .closed → .closed ∉ past ∧ (Settled topic past ∨
    ∃ s r, SinceLast (Item.Subscribes topic) past s ∧ SinceLast (Item.Unsubscribes topic) s r ∧
      ∃ y ∈ r, y.Received ChannelEvent.isUnsubscribed)

/-- The messages are some subscribes and then at most one unsubscribe. -/
def SubscribesThenUnsubscribe (t : List Item) : Prop :=
  ∃ n u, sentMessages t = List.replicate n (makeSubscribeMessage topic (ascii "subscribe")) ++ u ∧
    (u = [] ∨ u = [makeSubscribeMessage topic (ascii "unsubscribe")])

end

variable {topic : ChannelMarketPair}

/-! ### Small facts about items -/

@[simp] theorem sentMessages_append (t l : List Item) :
    sentMessages (t ++ l) = sentMessages t ++ sentMessages l := List.filterMap_append

theorem subscribe_ne_unsubscribe :
    makeSubscribeMessage topic (ascii "subscribe")
      ≠ makeSubscribeMessage topic (ascii "unsubscribe") := by
  have hne : ascii "subscribe" ≠ ascii "unsubscribe" := by decide
  intro h
  simp only [makeSubscribeMessage, Json.Value.object.injEq, List.cons.injEq, Prod.mk.injEq,
    Json.Value.string.injEq] at h
  exact hne h.2.2.1.2

theorem not_unsubscribes_of_subscribes {x : Item} (h : x.Subscribes topic) :
    ¬x.Unsubscribes topic := by
  intro hun
  rw [h, Item.Unsubscribes, Item.Sends, Item.did.injEq, Effect.send.injEq] at hun
  exact subscribe_ne_unsubscribe hun

theorem Item.IsPlain.not_sends {x : Item} (h : x.IsPlain) (action : Bytes) :
    ¬x.Sends topic action := by
  intro hx
  rw [hx] at h
  exact h

theorem Item.IsPlain.ne_closed {x : Item} (h : x.IsPlain) : x ≠ .closed := by
  rintro rfl
  exact h

theorem Item.IsPlain.sentMessages_eq {x : Item} (h : x.IsPlain) : sentMessages [x] = [] := by
  cases x with
  | did e =>
    cases e with
    | send payload => exact absurd h id
    | _ => rfl
  | _ => rfl

theorem Item.IsPlain.lawful {x : Item} (h : x.IsPlain) (past : List Item) : Lawful topic past x :=
  ⟨fun hx ↦ absurd hx (h.not_sends _), fun hx ↦ absurd hx (h.not_sends _),
    fun hx ↦ absurd hx h.ne_closed⟩

theorem isPlain_item (i : Input) : i.item.IsPlain := by
  cases i <;> trivial

theorem isPlain_of_mem_map_did {effects : List Effect} (h : ∀ x ∈ effects, x.IsQuiet) {x : Item}
    (hx : x ∈ effects.map .did) : x.IsPlain := by
  obtain ⟨y, hy, rfl⟩ := List.mem_map.mp hx
  exact h y hy

/-! ## The state as a summary of the history -/

/-- Only subscribes have been sent. -/
def OnlySubscribes (topic : ChannelMarketPair) (t : List Item) : Prop :=
  ∃ n, sentMessages t = List.replicate n (makeSubscribeMessage topic (ascii "subscribe"))

/-- What the history of a machine in the given state looks like. -/
def PhaseLedger (topic : ChannelMarketPair) : StateType → List Item → Prop
  | .down, t => OnlySubscribes topic t ∧ .closed ∉ t ∧ Settled topic t
  | .opening, t => OnlySubscribes topic t ∧ .closed ∉ t ∧
      ∃ s, SinceLast (Item.Subscribes topic) t s ∧ ∀ x ∈ s, ¬x.Received ChannelEvent.isDown
  | .open, t => OnlySubscribes topic t ∧ .closed ∉ t ∧
      ∃ s, SinceLast (Item.Subscribes topic) t s ∧
        (∃ x ∈ s, x.Received ChannelEvent.isSubscribed) ∧ ∀ x ∈ s, ¬x.Received ChannelEvent.isDown
  | .closing, t => (∃ n, sentMessages t
        = List.replicate n (makeSubscribeMessage topic (ascii "subscribe"))
          ++ [makeSubscribeMessage topic (ascii "unsubscribe")]) ∧ .closed ∉ t ∧
      ∃ s r, SinceLast (Item.Subscribes topic) t s ∧ SinceLast (Item.Unsubscribes topic) s r
  | .closed, t => SubscribesThenUnsubscribe topic t

theorem OnlySubscribes.subscribesThenUnsubscribe {t : List Item} (h : OnlySubscribes topic t) :
    SubscribesThenUnsubscribe topic t := by
  obtain ⟨n, hn⟩ := h
  exact ⟨n, [], by rw [hn, List.append_nil], .inl rfl⟩

theorem PhaseLedger.subscribesThenUnsubscribe {st : StateType} {t : List Item}
    (h : PhaseLedger topic st t) : SubscribesThenUnsubscribe topic t := by
  cases st with
  | down => exact h.1.subscribesThenUnsubscribe
  | opening => exact h.1.subscribesThenUnsubscribe
  | «open» => exact h.1.subscribesThenUnsubscribe
  | closing =>
    obtain ⟨n, hn⟩ := h.1
    exact ⟨n, _, hn, .inr rfl⟩
  | closed => exact h

theorem not_mem_concat {t : List Item} {x y : Item} (ht : y ∉ t) (hx : x ≠ y) : y ∉ t ++ [x] := by
  intro hmem
  rcases List.mem_append.mp hmem with hmem | hmem
  · exact ht hmem
  · exact hx (List.mem_singleton.mp hmem).symm

theorem Settled.concat {t : List Item} {x : Item} (h : Settled topic t)
    (hx : ¬x.Subscribes topic) : Settled topic (t ++ [x]) := by
  rcases h with h | ⟨s, hs, y, hy, hdown⟩
  · left
    intro y hy
    rcases List.mem_append.mp hy with hy | hy
    · exact h y hy
    · rw [List.mem_singleton.mp hy]
      exact hx
  · exact .inr ⟨s ++ [x], hs.concat hx, y, List.mem_append_left _ hy, hdown⟩

theorem forall_concat {p : Item → Prop} {s : List Item} {x : Item} (hs : ∀ y ∈ s, p y) (hx : p x) :
    ∀ y ∈ s ++ [x], p y := by
  intro y hy
  rcases List.mem_append.mp hy with hy | hy
  · exact hs y hy
  · rw [List.mem_singleton.mp hy]
    exact hx

/-- A plain item changes no summary, unless it is a disconnection that a machine in `opening` or
`open` would have to answer. -/
theorem PhaseLedger.concat {st : StateType} {t : List Item} {x : Item} (h : PhaseLedger topic st t)
    (hx : x.IsPlain)
    (hdown : x.Received ChannelEvent.isDown → st ≠ .opening ∧ st ≠ .open) :
    PhaseLedger topic st (t ++ [x]) := by
  have hsent : sentMessages (t ++ [x]) = sentMessages t := by
    rw [sentMessages_append, hx.sentMessages_eq, List.append_nil]
  have hsub : ¬x.Subscribes topic := hx.not_sends _
  have hunsub : ¬x.Unsubscribes topic := hx.not_sends _
  cases st with
  | down =>
    obtain ⟨hmsgs, hclosed, hsettled⟩ := h
    exact ⟨by rwa [OnlySubscribes, hsent], not_mem_concat hclosed hx.ne_closed,
      hsettled.concat hsub⟩
  | opening =>
    obtain ⟨hmsgs, hclosed, s, hs, hup⟩ := h
    exact ⟨by rwa [OnlySubscribes, hsent], not_mem_concat hclosed hx.ne_closed, s ++ [x],
      hs.concat hsub, forall_concat hup fun hd ↦ (hdown hd).1 rfl⟩
  | «open» =>
    obtain ⟨hmsgs, hclosed, s, hs, ⟨y, hy, hconf⟩, hup⟩ := h
    exact ⟨by rwa [OnlySubscribes, hsent], not_mem_concat hclosed hx.ne_closed, s ++ [x],
      hs.concat hsub, ⟨y, List.mem_append_left _ hy, hconf⟩,
      forall_concat hup fun hd ↦ (hdown hd).2 rfl⟩
  | closing =>
    obtain ⟨hmsgs, hclosed, s, r, hs, hr⟩ := h
    exact ⟨by rwa [hsent], not_mem_concat hclosed hx.ne_closed, s ++ [x], r ++ [x],
      hs.concat hsub, hr.concat hunsub⟩
  | closed =>
    show SubscribesThenUnsubscribe topic (t ++ [x])
    rwa [SubscribesThenUnsubscribe, hsent]

/-! ### The transitions of the summary -/

section Transitions

variable {t : List Item}

/-- Sending a subscribe. -/
theorem ledger_opening (h : PhaseLedger topic .down t) :
    Lawful topic t (.did (.send (makeSubscribeMessage topic (ascii "subscribe")))) ∧
      PhaseLedger topic .opening
        (t ++ [.did (.send (makeSubscribeMessage topic (ascii "subscribe")))]) := by
  obtain ⟨⟨n, hn⟩, hclosed, hsettled⟩ := h
  refine ⟨⟨fun _ ↦ hsettled, fun hun ↦ ?_, fun hcl ↦ by cases hcl⟩, ⟨n + 1, ?_⟩,
    not_mem_concat hclosed (by simp), [], sinceLast_concat_self rfl, by simp⟩
  · exact absurd hun (not_unsubscribes_of_subscribes rfl)
  -- one more subscribe, and still nothing else
  · rw [sentMessages_append, hn, List.replicate_succ']
    rfl

/-- Losing the connection with a subscription asked for. -/
theorem ledger_lost {e : ChannelEvent} (he : e.isDown = true)
    (h : PhaseLedger topic .opening t ∨ PhaseLedger topic .open t) :
    PhaseLedger topic .down (t ++ [.received e]) := by
  have hkey : OnlySubscribes topic t ∧ .closed ∉ t ∧
      ∃ s, SinceLast (Item.Subscribes topic) t s := by
    rcases h with ⟨hmsgs, hclosed, s, hs, -⟩ | ⟨hmsgs, hclosed, s, hs, -⟩
    · exact ⟨hmsgs, hclosed, s, hs⟩
    · exact ⟨hmsgs, hclosed, s, hs⟩
  obtain ⟨⟨n, hn⟩, hclosed, s, hs⟩ := hkey
  refine ⟨⟨n, ?_⟩, not_mem_concat hclosed (by simp), .inr ⟨s ++ [.received e], ?_, .received e,
    by simp, he⟩⟩
  · rw [sentMessages_append, hn]
    exact List.append_nil _
  · exact hs.concat (by simp [Item.Sends])

/-- A confirmed subscription. -/
theorem ledger_open {e : ChannelEvent} (he : e.isSubscribed = true)
    (h : PhaseLedger topic .opening t) : PhaseLedger topic .open (t ++ [.received e]) := by
  obtain ⟨⟨n, hn⟩, hclosed, s, hs, hup⟩ := h
  have hnotdown : ¬Item.Received ChannelEvent.isDown (.received e) := by
    intro hdown
    rw [ChannelEvent.isSubscribed_of_isDown hdown] at he
    exact absurd he (by simp)
  refine ⟨⟨n, ?_⟩, not_mem_concat hclosed (by simp), s ++ [.received e], ?_,
    ⟨.received e, by simp, he⟩, forall_concat hup hnotdown⟩
  · rw [sentMessages_append, hn]
    exact List.append_nil _
  · exact hs.concat (by simp [Item.Sends])

/-- Sending an unsubscribe. -/
theorem ledger_closing (h : PhaseLedger topic .open t) :
    Lawful topic t (.did (.send (makeSubscribeMessage topic (ascii "unsubscribe")))) ∧
      PhaseLedger topic .closing
        (t ++ [.did (.send (makeSubscribeMessage topic (ascii "unsubscribe")))]) := by
  obtain ⟨⟨n, hn⟩, hclosed, s, hs, hconf, hup⟩ := h
  have hnotsub : ¬Item.Subscribes topic
      (.did (.send (makeSubscribeMessage topic (ascii "unsubscribe")))) :=
    fun hsub ↦ not_unsubscribes_of_subscribes hsub rfl
  refine ⟨⟨fun hsub ↦ absurd hsub hnotsub, fun _ ↦ ⟨s, hs, hconf, hup⟩, fun hcl ↦ by cases hcl⟩,
    ⟨n, ?_⟩, not_mem_concat hclosed (by simp), _, [], hs.concat hnotsub, sinceLast_concat_self rfl⟩
  rw [sentMessages_append, hn]
  rfl

/-- Becoming closed, with or without a subscription to give back. -/
theorem ledger_closed (hmsgs : SubscribesThenUnsubscribe topic t) (hnot : .closed ∉ t)
    (hgone : Settled topic t ∨ ∃ s r, SinceLast (Item.Subscribes topic) t s ∧
      SinceLast (Item.Unsubscribes topic) s r ∧ ∃ y ∈ r, y.Received ChannelEvent.isUnsubscribed) :
    Lawful topic t .closed ∧ PhaseLedger topic .closed (t ++ [.closed]) := by
  refine ⟨⟨fun h ↦ ?_, fun h ↦ ?_, fun _ ↦ ⟨hnot, hgone⟩⟩, ?_⟩
  · cases h
  · cases h
  · obtain ⟨n, u, hsent, hu⟩ := hmsgs
    exact ⟨n, u, by rw [sentMessages_append, hsent]; exact List.append_nil _, hu⟩

/-- The disconnection itself gives the outstanding subscription back. -/
theorem ledger_closedDown {e : ChannelEvent} (he : e.isDown = true)
    (h : PhaseLedger topic .closing t) : Lawful topic (t ++ [.received e]) .closed ∧
      PhaseLedger topic .closed (t ++ [.received e] ++ [.closed]) := by
  have hplain : (Item.received e).IsPlain := trivial
  have hmid : PhaseLedger topic .closing (t ++ [.received e]) := h.concat hplain (by simp)
  obtain ⟨-, -, s, r, hs, -⟩ := h
  have hsettled : Settled topic (t ++ [.received e]) :=
    .inr ⟨_, hs.concat (hplain.not_sends _), _,
      List.mem_append_right s (List.mem_singleton_self _), he⟩
  exact ledger_closed hmid.subscribesThenUnsubscribe hmid.2.1 (.inl hsettled)

/-- The confirmation ends the stretch since the unsubscribe. -/
theorem ledger_unsubscribed {e : ChannelEvent} (he : e.isUnsubscribed = true)
    (h : PhaseLedger topic .closing t) : Lawful topic (t ++ [.received e]) .closed ∧
      PhaseLedger topic .closed (t ++ [.received e] ++ [.closed]) := by
  have hplain : (Item.received e).IsPlain := trivial
  have hmid : PhaseLedger topic .closing (t ++ [.received e]) := h.concat hplain (by simp)
  obtain ⟨-, -, s, r, hs, hr⟩ := h
  have hgone : ∃ s r, SinceLast (Item.Subscribes topic) (t ++ [.received e]) s ∧
      SinceLast (Item.Unsubscribes topic) s r ∧ ∃ y ∈ r, y.Received ChannelEvent.isUnsubscribed :=
    ⟨_, _, hs.concat (hplain.not_sends _), hr.concat (hplain.not_sends _), _,
      List.mem_append_right r (List.mem_singleton_self _), he⟩
  exact ledger_closed hmid.subscribesThenUnsubscribe hmid.2.1 (.inr hgone)

end Transitions

/-! ## The invariant of every run -/

/-- What an observation adds to a machine and its history. -/
theorem observe_move {i : Input} {m m' : Observed} (h : observe i m = some m') :
    ∃ effects, Move m.machine i m'.machine effects ∧
      m'.history = m.history ++ [i.item] ++ effects.map .did ++ closing m.machine m'.machine := by
  rw [observe, Option.some_inj] at h
  subst h
  exact ⟨_, StateMachine.feed_move m.machine i, by simp⟩

theorem closing_of_ne {old new : StateMachine} (h : new.state ≠ .closed) : closing old new = [] :=
  if_neg fun hc ↦ h hc.1

theorem closing_of_eq {old new : StateMachine} (h : new.state = old.state) :
    closing old new = [] :=
  if_neg fun hc ↦ hc.2 (h ▸ hc.1)

theorem closing_of_closed {old new : StateMachine} (hnew : new.state = .closed)
    (hold : old.state ≠ .closed) : closing old new = [.closed] := if_pos ⟨hnew, hold⟩

theorem PhaseLedger.append_effects {st : StateType} {t : List Item} {effects : List Effect}
    (h : PhaseLedger topic st t) (hquiet : ∀ x ∈ effects, x.IsQuiet) :
    PhaseLedger topic st (t ++ effects.map .did) := by
  induction effects generalizing t with
  | nil => rwa [List.map_nil, List.append_nil]
  | cons x effects ih =>
    have hx : (Item.did x).IsPlain := hquiet x List.mem_cons_self
    have hstep : PhaseLedger topic st (t ++ [.did x]) := h.concat hx fun hd ↦ hd.elim
    have hrest := ih hstep fun y hy ↦ hquiet y (List.mem_cons_of_mem x hy)
    rwa [List.append_assoc, List.singleton_append, ← List.map_cons] at hrest

/-- The history is lawful and the state summarises it. -/
structure Ledger (topic : ChannelMarketPair) (m : Observed) : Prop where
  topic_eq : m.machine.topic = topic
  lawful : AtEach (Lawful topic) m.history
  phase : PhaseLedger topic m.machine.state m.history

theorem ledger_fresh (topic : ChannelMarketPair) : Ledger topic (fresh topic) :=
  ⟨rfl, atEach_nil _, ⟨0, rfl⟩, List.not_mem_nil, .inl fun _ h ↦ absurd h List.not_mem_nil⟩

theorem lawful_input {t : List Item} (h : AtEach (Lawful topic) t) (i : Input) :
    AtEach (Lawful topic) (t ++ [i.item]) :=
  atEach_concat.mpr ⟨h, (isPlain_item i).lawful t⟩

theorem observe_ledger {i : Input} {m m' : Observed} (h : Ledger topic m)
    (hstep : observe i m = some m') : Ledger topic m' := by
  obtain ⟨effects, hmove, hhist⟩ := observe_move hstep
  obtain ⟨machine, history⟩ := m
  obtain ⟨machine', history'⟩ := m'
  obtain ⟨rfl, hlawful, hphase⟩ := h
  dsimp only at hmove hhist hlawful hphase ⊢
  have hinput := lawful_input hlawful i
  cases hmove with
  | @ignored e _ hquiet hdown _ =>
    rw [closing_of_eq rfl, List.append_nil] at hhist
    subst hhist
    have hplain : ∀ x ∈ effects.map Item.did, ∀ past, Lawful machine.topic past x :=
      fun x hx ↦ (isPlain_of_mem_map_did hquiet hx).lawful
    refine ⟨rfl, hinput.append_of_forall hplain, ?_⟩
    refine (hphase.concat (isPlain_item (.event e)) fun hd ↦ ?_).append_effects hquiet
    rcases hdown hd with hst | hst <;> simp [hst]
  | @up e hstate he =>
    -- the assert comes before the subscribe and is judged on its own
    have hsplit : history' = history ++ [(Input.event e).item] ++ [.did .assertUp]
        ++ [.did (.send (makeSubscribeMessage machine.topic (ascii "subscribe")))] := by
      rw [hhist, closing_of_ne (by simp), List.append_nil]
      simp
    subst hsplit
    have hassert : (Item.did .assertUp).IsPlain := trivial
    rw [hstate] at hphase
    have hmid : PhaseLedger machine.topic .down
        (history ++ [(Input.event e).item] ++ [.did .assertUp]) :=
      (hphase.concat (isPlain_item (.event e)) (by simp)).concat hassert (by simp)
    obtain ⟨hlaw, hnew⟩ := ledger_opening hmid
    exact ⟨rfl, atEach_concat.mpr ⟨atEach_concat.mpr ⟨hinput, hassert.lawful _⟩, hlaw⟩, hnew⟩
  | lost hstate he =>
    rw [closing_of_ne (by simp), List.append_nil, List.map_nil, List.append_nil] at hhist
    subst hhist
    refine ⟨rfl, hinput, ledger_lost he ?_⟩
    rcases hstate with hstate | hstate
    · exact .inl (hstate ▸ hphase)
    · exact .inr (hstate ▸ hphase)
  | subscribed hstate he _ =>
    rw [closing_of_ne (by simp), List.append_nil, List.map_nil, List.append_nil] at hhist
    subst hhist
    exact ⟨rfl, hinput, ledger_open he (hstate ▸ hphase)⟩
  | subscribedClosing hstate he _ =>
    rw [closing_of_ne (by simp), List.append_nil, List.map_singleton] at hhist
    subst hhist
    obtain ⟨hlaw, hnew⟩ := ledger_closing (ledger_open he (hstate ▸ hphase))
    exact ⟨rfl, atEach_concat.mpr ⟨hinput, hlaw⟩, hnew⟩
  | closedDown hstate he =>
    rw [closing_of_closed rfl (by simp [hstate]), List.map_nil, List.append_nil] at hhist
    subst hhist
    obtain ⟨hlaw, hnew⟩ := ledger_closedDown he (hstate ▸ hphase)
    exact ⟨rfl, atEach_concat.mpr ⟨hinput, hlaw⟩, hnew⟩
  | unsubscribed hstate he =>
    rw [closing_of_closed rfl (by simp [hstate]), List.map_nil, List.append_nil] at hhist
    subst hhist
    obtain ⟨hlaw, hnew⟩ := ledger_unsubscribed he (hstate ▸ hphase)
    exact ⟨rfl, atEach_concat.mpr ⟨hinput, hlaw⟩, hnew⟩
  | closeAgain _ =>
    rw [closing_of_eq rfl, List.append_nil, List.map_nil, List.append_nil] at hhist
    subst hhist
    exact ⟨rfl, hinput, hphase.concat (isPlain_item .close) fun hd ↦ hd.elim⟩
  | closeNoted _ _ =>
    have hnone : closing machine { machine with closeRequested := true } = [] := closing_of_eq rfl
    rw [hnone, List.append_nil, List.map_nil, List.append_nil] at hhist
    subst hhist
    exact ⟨rfl, hinput, hphase.concat (isPlain_item .close) fun hd ↦ hd.elim⟩
  | closeDown _ hstate =>
    rw [closing_of_closed rfl (by simp [hstate]), List.map_nil, List.append_nil] at hhist
    subst hhist
    have hmid : PhaseLedger machine.topic .down (history ++ [Input.close.item]) :=
      (hstate ▸ hphase).concat (isPlain_item .close) fun hd ↦ hd.elim
    obtain ⟨hlaw, hnew⟩ :=
      ledger_closed hmid.subscribesThenUnsubscribe hmid.2.1 (.inl hmid.2.2)
    exact ⟨rfl, atEach_concat.mpr ⟨hinput, hlaw⟩, hnew⟩
  | closeOpen _ hstate =>
    rw [closing_of_ne (by simp), List.append_nil, List.map_singleton] at hhist
    subst hhist
    have hmid : PhaseLedger machine.topic .open (history ++ [Input.close.item]) :=
      (hstate ▸ hphase).concat (isPlain_item .close) fun hd ↦ hd.elim
    obtain ⟨hlaw, hnew⟩ := ledger_closing hmid
    exact ⟨rfl, atEach_concat.mpr ⟨hinput, hlaw⟩, hnew⟩

/-- A machine accepts every input. -/
theorem exists_observed (inputs : List Input) (m : Observed) :
    ∃ m', exec observe inputs m = some m' := by
  induction inputs generalizing m with
  | nil => exact ⟨m, rfl⟩
  | cons i inputs ih =>
    rw [exec_cons, observe, Option.bind_some]
    exact ih _

/-- **The traffic of every run is well formed.** Events fed after the machine has closed change
nothing, so no assumption on the inputs is needed. -/
theorem traffic_wellFormed (topic : ChannelMarketPair) (inputs : List Input) :
    ∃ m, exec observe inputs (fresh topic) = some m ∧ SubscribesThenUnsubscribe topic m.history ∧
      AtEach (Lawful topic) m.history := by
  obtain ⟨m, hrun⟩ := exists_observed inputs (fresh topic)
  have h : Ledger topic m := exec_invariant (Ledger topic) observe_ledger (ledger_fresh topic) hrun
  exact ⟨m, hrun, h.phase.subscribesThenUnsubscribe, h.lawful⟩

end Ftx

end BoostConnector
