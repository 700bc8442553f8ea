import BoostConnector.Ftx.ChannelInterest
import BoostConnector.Ftx.SubscriptionMove

/-!
# Which subscription a response reaches

`read_state` finds the channel of a frame in `channel_states_` and calls the handler stored there if
the channel is acquired. A run is observed here together with the frames it hands over, each with
the subscription whose handler was called (`Post`). Whatever else happens, a handler belongs to a
subscription on the very channel and market that the frame names, and what the state machine of a
subscription is given of responses is what was handed over to it, in the order in which it was read
(`run_routes`).
-/

namespace BoostConnector

namespace Ftx

open Transition

/-! ## Mail -/

/-- The responses that the state machine was given. -/
def Subscription.responses (s : Subscription) : List Json.Value :=
  s.seen.filterMap fun x ↦ x.2.getResponse

/-- What is of interest of a subscription: its topic and the responses. -/
def Subscription.mail (s : Subscription) : ChannelMarketPair × List Json.Value :=
  (s.topic, s.responses)

theorem Subscription.mail_given {s : Subscription} {e : ChannelEvent} (he : e.getResponse = none) :
    (s.given e).mail = s.mail := by
  simp [mail, responses, given, he]

theorem Subscription.mail_given_response (s : Subscription) (jframe : Json.Value) :
    (s.given (.response jframe)).mail = (s.topic, s.responses ++ [jframe]) := by
  simp [mail, responses, given, ChannelEvent.getResponse]

namespace Connector

variable {args : Args} {c d : Connector}

def mail (c : Connector) : List (ChannelMarketPair × List Json.Value) :=
  c.subs.map Subscription.mail

theorem mail_setSub {i : ℕ} {s t : Subscription} (hi : c.subs[i]? = some s)
    (hmail : t.mail = s.mail) : (c.setSub i t).mail = c.mail := by
  obtain ⟨hlt, rfl⟩ := List.getElem?_eq_some_iff.mp hi
  rw [mail, setSub, List.map_set, hmail, ← List.getElem_map Subscription.mail (h := by simpa),
    List.set_getElem_self]
  rfl

theorem mail_performAll (c : Connector) (effects : List Effect) :
    (c.performAll effects).mail = c.mail := by
  rw [mail, performAll_subs, mail]

theorem mail_handle {e : ChannelEvent} (he : e.getResponse = none) (i : ℕ) :
    (c.handle i e).mail = c.mail := by
  rcases hi : c.subs[i]? with _ | s
  · rw [handle, hi]
  · rw [handle_of_sub hi, mail_performAll, mail_setSub hi (Subscription.mail_given he)]

theorem mail_tell {e : ChannelEvent} (he : e.getResponse = none) (index : ChannelMarketPair) :
    (c.tell e index).mail = c.mail := by
  unfold tell
  split
  · split_ifs
    · split
      · exact mail_handle he _
      · rfl
    · rfl
  · rfl

theorem mail_broadcast {e : ChannelEvent} (he : e.getResponse = none)
    (order : List ChannelMarketPair) : (c.broadcast order e).mail = c.mail := by
  induction order generalizing c with
  | nil => rfl
  | cons index order ih => exact ih.trans (mail_tell he index)

theorem mail_notifyConnectionState (c : Connector) (s : ConnectionState)
    (order : List ChannelMarketPair) : (c.notifyConnectionState s order).mail = c.mail :=
  mail_broadcast (c := c.announce s) (by rcases s <;> rfl) order

/-! ## Handing over -/

/-- The subscription whose handler `read_state` calls with the frame. -/
def addressee? (c : Connector) (jframe : Json.Value) : Option ℕ :=
  match route jframe with
  | some (.channel index) =>
    (c.channelStates.lookup index).bind fun cs ↦ if cs.acquired then cs.onEvent else none
  | _ => none

/-- What a step hands over. -/
def deliveries (c : Connector) : Action → List (ℕ × Json.Value)
  | .readMessage (.text (some jframe)) => (c.addressee? jframe).toList.map fun i ↦ (i, jframe)
  | _ => []

end Connector

/-- A frame is added to the mail of the subscription it is handed over to. -/
def receive (mail : List (ChannelMarketPair × List Json.Value)) (x : ℕ × Json.Value) :
    List (ChannelMarketPair × List Json.Value) :=
  mail.modify x.1 fun m ↦ (m.1, m.2 ++ [x.2])

theorem receive_getElem?_self {mail : List (ChannelMarketPair × List Json.Value)} {i : ℕ}
    {m : ChannelMarketPair × List Json.Value} {jframe : Json.Value} (hi : mail[i]? = some m) :
    (receive mail (i, jframe))[i]? = some (m.1, m.2 ++ [jframe]) := by
  rw [receive, List.getElem?_modify_eq, hi]
  rfl

theorem receive_getElem?_ne {mail : List (ChannelMarketPair × List Json.Value)} {i k : ℕ}
    {jframe : Json.Value} (hik : i ≠ k) : (receive mail (i, jframe))[k]? = mail[k]? := by
  rw [receive, List.getElem?_modify_ne _ _ hik]

/-- Topics stay. -/
theorem receive_topic {mail : List (ChannelMarketPair × List Json.Value)} {k : ℕ}
    {m : ChannelMarketPair × List Json.Value} (x : ℕ × Json.Value) (hk : mail[k]? = some m) :
    ∃ m', (receive mail x)[k]? = some m' ∧ m'.1 = m.1 := by
  by_cases hik : x.1 = k
  · subst hik
    exact ⟨_, receive_getElem?_self hk, rfl⟩
  · exact ⟨m, (receive_getElem?_ne hik).trans hk, rfl⟩

namespace Connector

variable {c : Connector}

theorem mail_handle_response (c : Connector) (i : ℕ) (jframe : Json.Value) :
    (c.handle i (.response jframe)).mail = receive c.mail (i, jframe) := by
  rcases hi : c.subs[i]? with _ | s
  · have hlen : c.mail.length ≤ i := by
      rw [mail, List.length_map]
      exact List.getElem?_eq_none_iff.mp hi
    rw [handle, hi, receive, List.modify_eq_self hlen]
  · rw [handle_of_sub hi, mail_performAll, receive, mail, setSub, List.map_set,
      Subscription.mail_given_response, List.modify_eq_set_getElem?, mail, List.getElem?_map, hi]
    rfl

theorem mail_handleMessage (c : Connector) (msg : Message) :
    (c.handleMessage msg).mail = (c.deliveries (.readMessage msg)).foldl receive c.mail := by
  rcases msg with _ | _ | jframe
  · rfl
  · rfl
  · rcases hroute : route jframe with _ | _ | index
    · simp only [handleMessage, hroute, deliveries, addressee?]
      rfl
    · simp only [handleMessage, hroute, deliveries, addressee?]
      rfl
    · simp only [handleMessage, hroute, deliveries, addressee?, tell]
      rcases hcs : c.channelStates.lookup index with _ | cs
      · rfl
      · rcases hacq : cs.acquired
        · simp [hacq]
        · rcases hi : cs.onEvent with _ | i
          · simp [hacq, hi]
          · simp only [hacq, if_true, hi, Option.bind_some, Option.toList_some, List.map_singleton,
              List.foldl_cons, List.foldl_nil]
            exact mail_handle_response c i jframe

end Connector

/-! ## Steps -/

/-- Every handler belongs to a subscription on the channel it is stored for. -/
def Connector.Addressed (c : Connector) : Prop :=
  ∀ index cs i, c.channelStates.lookup index = some cs → cs.acquired = true →
    cs.onEvent = some i → ∃ m, c.mail[i]? = some m ∧ m.1 = index

/-- The mail of `d` is that of `c` and of new subscriptions, which have none. -/
def KeepsMail (c d : Connector) : Prop :=
  ∃ fresh, (∀ m ∈ fresh, m.2 = []) ∧ d.mail = c.mail ++ fresh

namespace KeepsMail

variable {c d e : Connector}

theorem of_eq (h : d.mail = c.mail) : KeepsMail c d :=
  ⟨[], List.forall_mem_nil _, by rw [h, List.append_nil]⟩

theorem trans (h : KeepsMail c d) (h' : KeepsMail d e) : KeepsMail c e := by
  obtain ⟨fresh, hfresh, hmail⟩ := h
  obtain ⟨fresh', hfresh', hmail'⟩ := h'
  refine ⟨fresh ++ fresh', List.forall_mem_append.mpr ⟨hfresh, hfresh'⟩, ?_⟩
  rw [hmail', hmail, List.append_assoc]

theorem getElem? (h : KeepsMail c d) {i : ℕ} {m : ChannelMarketPair × List Json.Value}
    (hi : c.mail[i]? = some m) : d.mail[i]? = some m := by
  obtain ⟨fresh, -, hmail⟩ := h
  rw [hmail, List.getElem?_append_left (List.getElem?_eq_some_iff.mp hi).1, hi]

end KeepsMail

theorem Connector.mail_getElem? {c : Connector} {i : ℕ} {s : Subscription}
    (hi : c.subs[i]? = some s) : c.mail[i]? = some s.mail := by
  rw [Connector.mail, List.getElem?_map, hi]
  rfl

namespace Connector

variable {c d : Connector}

/-- The handlers stay, and the subscriptions keep their topics. -/
theorem Addressed.of_topics (hc : c.Addressed) (hchannels : d.channelStates = c.channelStates)
    (htopics : ∀ (i : ℕ) (m : ChannelMarketPair × List Json.Value), c.mail[i]? = some m →
      ∃ m', d.mail[i]? = some m' ∧ m'.1 = m.1) : d.Addressed := by
  intro index cs i hlookup hacq hi
  obtain ⟨m, hm, htopic⟩ := hc index cs i (hchannels ▸ hlookup) hacq hi
  obtain ⟨m', hm', hsame⟩ := htopics i m hm
  exact ⟨m', hm', hsame.trans htopic⟩

theorem Addressed.congr (hc : c.Addressed) (hmail : KeepsMail c d)
    (hchannels : d.channelStates = c.channelStates) : d.Addressed :=
  hc.of_topics hchannels fun _ m hm ↦ ⟨m, hmail.getElem? hm, rfl⟩

theorem Addressed.setChannel (hc : c.Addressed) {index : ChannelMarketPair} {cs : ChannelState}
    (hcs : cs.acquired = true → ∀ i, cs.onEvent = some i →
      ∃ m, c.mail[i]? = some m ∧ m.1 = index) : (c.setChannel index cs).Addressed := by
  intro k ks i hlookup hacq hi
  by_cases hk : k = index
  · subst hk
    rw [Connector.setChannel, AList.lookup_insert, Option.some_inj] at hlookup
    subst hlookup
    exact hcs hacq i hi
  · rw [Connector.setChannel, AList.lookup_insert_ne hk] at hlookup
    exact hc k ks i hlookup hacq hi

theorem Addressed.locateChannel (hc : c.Addressed) (index : ChannelMarketPair) :
    (c.locateChannel index).2.Addressed := by
  unfold Connector.locateChannel
  split
  · rename_i cs hlookup
    exact hc.setChannel fun hacq i hi ↦ hc index cs i hlookup hacq hi
  · exact Addressed.setChannel (c := { c with nextNode := c.nextNode + 1 }) hc
      fun hacq ↦ by simp at hacq

/-- A subscription takes the channel of its own topic. -/
theorem Addressed.taken (hc : c.Addressed) {i : ℕ} {s : Subscription} (hi : c.subs[i]? = some s)
    (node : ℕ) (cs : ChannelState) :
    (c.taken i { s with node } cs).Addressed ∧ (c.taken i { s with node } cs).mail = c.mail := by
  have hmail : (c.taken i { s with node } cs).mail = c.mail :=
    mail_setSub (c := c.setChannel s.topic _) hi rfl
  refine ⟨?_, hmail⟩
  have hset : (c.setChannel s.topic { cs with acquired := true, onEvent := some i }).Addressed := by
    refine hc.setChannel fun _ j hj ↦ ?_
    obtain rfl := Option.some_inj.mp hj
    exact ⟨s.mail, mail_getElem? hi, rfl⟩
  exact hset.congr (.of_eq hmail) rfl

theorem Addressed.erase (hc : c.Addressed) (index : ChannelMarketPair) :
    Addressed { c with channelStates := c.channelStates.erase index } := by
  intro k ks i hlookup hacq hi
  by_cases hk : k = index
  · subst hk
    rw [AList.lookup_erase] at hlookup
    exact absurd hlookup (by simp)
  · rw [AList.lookup_erase_ne hk] at hlookup
    exact hc k ks i hlookup hacq hi

end Connector

/-- A subscription takes the channel of its own topic, and no other changes hands. -/
theorem SubscriptionMove.addressed {c d : Connector} (hc : c.Addressed)
    (h : SubscriptionMove c d) : d.Addressed ∧ KeepsMail c d := by
  have hsame {e : Connector} (he : KeepsMail c e) (hchannels : e.channelStates = c.channelStates) :
      e.Addressed ∧ KeepsMail c e := ⟨hc.congr he hchannels, he⟩
  cases h with
  | start topic =>
    refine hsame ⟨[(topic, [])], by simp, ?_⟩ rfl
    simp [Connector.mail, Subscription.mail, Subscription.new, Subscription.responses]
  | locate index =>
    refine ⟨hc.locateChannel index, .of_eq ?_⟩
    rw [Connector.mail, Connector.subs_locateChannel, Connector.mail]
  | @moveOn i s hi pc node stopLatch hbefore =>
    exact hsame (.of_eq (Connector.mail_setSub hi rfl)) rfl
  | take hi hbefore node cs hdown =>
    obtain ⟨htaken, hmail⟩ := hc.taken hi node cs
    exact ⟨htaken, .of_eq hmail⟩
  | @takeUp i s hi hbefore node cs hup =>
    obtain ⟨htaken, hmail⟩ := hc.taken hi node cs
    have htold :=
      Connector.mail_handle (c := c.taken i { s with node } cs) (e := .connectionUp) rfl i
    exact ⟨htaken.congr (.of_eq htold) (Connector.handle_undisturbed _ _ _).channelStates,
      .of_eq (htold.trans hmail)⟩
  | close hi hpc =>
    refine hsame (.of_eq ((Connector.mail_performAll _ _).trans (Connector.mail_setSub hi rfl))) ?_
    exact (Connector.performAll_undisturbed _ _).channelStates
  | checkRelease cs => exact hsame (.of_eq rfl) rfl
  | unacquire index cs hcs =>
    exact ⟨hc.setChannel fun hacq ↦ by simp [hcs] at hacq, .of_eq rfl⟩
  | erase index => exact ⟨hc.erase index, .of_eq rfl⟩

/-- What a step of the connection hands over, and that no handler is touched by it. -/
theorem connection_mail {args : Args} {a : Action} {c d : Connector} (ha : a.IsConnection)
    (h : step args a c = some d) :
    d.channelStates = c.channelStates ∧ d.mail = (c.deliveries a).foldl receive c.mail := by
  cases connection_move ha h with
  | send payload => exact ⟨rfl, rfl⟩
  | drop =>
    have hdrop := Connector.perform_undisturbed c .drop
    exact ⟨hdrop.channelStates, congrArg (List.map Subscription.mail)
      (Connector.perform_subs c .drop)⟩
  | requestStop => exact ⟨rfl, rfl⟩
  | stopped hphase hstop => exact ⟨rfl, rfl⟩
  | connecting hphase hstop => exact ⟨rfl, rfl⟩
  | badUrl hphase hstop => exact ⟨rfl, rfl⟩
  | @abandoned ok order hphase hwalks hstop =>
    exact ⟨(Connector.notifyConnectionState_undisturbed _ _ _).channelStates,
      Connector.mail_notifyConnectionState _ _ _⟩
  | @announced ok order hphase hwalks hstop =>
    exact ⟨(Connector.notifyConnectionState_undisturbed _ _ _).channelStates,
      Connector.mail_notifyConnectionState _ _ _⟩
  | beginReader hphase ht => exact ⟨rfl, rfl⟩
  | @readMessage t msg hphase ht =>
    exact ⟨(Connector.handleMessage_undisturbed c msg).channelStates,
      Connector.mail_handleMessage c msg⟩
  | readError hphase ht hwalks =>
    exact ⟨(Connector.broadcast_undisturbed _ _ _).channelStates, Connector.mail_broadcast rfl _⟩
  | writer hwriter hphase ht => rcases hwriter with rfl | rfl | ⟨ok, rfl⟩ <;> exact ⟨rfl, rfl⟩
  | pinger hpinger hphase ht => rcases hpinger with rfl | rfl | rfl | rfl <;> exact ⟨rfl, rfl⟩
  | joined hphase ht hwalks =>
    exact ⟨(Connector.notifyConnectionState_undisturbed _ _ _).channelStates,
      Connector.mail_notifyConnectionState _ _ _⟩
  | failed hphase ht => exact ⟨rfl, rfl⟩

/-! ## Runs -/

/-- A connector with the frames that were handed over so far, each with the subscription whose
handler was called. -/
structure Post where
  connector : Connector := {}
  delivered : List (ℕ × Json.Value) := []

def Post.follow (o : Post) (a : Action) (d : Connector) : Post where
  connector := d
  delivered := o.delivered ++ o.connector.deliveries a

def postStep (args : Args) (a : Action) (o : Post) : Option Post :=
  (step args a o.connector).map (o.follow a)

/-- The run with what it hands over. -/
def post (args : Args) (actions : List Action) : Option Post := exec (postStep args) actions {}

/-- What a subscription was given is what was handed over to it. -/
structure Posted (o : Post) : Prop where
  addressed : o.connector.Addressed
  responses : ∀ i m, o.connector.mail[i]? = some m →
    m.2 = (o.delivered.filter fun x ↦ x.1 = i).map Prod.snd
  topics : ∀ x ∈ o.delivered, ∃ m, o.connector.mail[x.1]? = some m ∧
    route x.2 = some (.channel m.1)

theorem posted_fresh : Posted {} where
  addressed index cs i h := by
    have hnone : AList.lookup index (∅ : AList (fun _ : ChannelMarketPair ↦ ChannelState)) = none :=
      rfl
    rw [hnone] at h
    exact absurd h (by simp)
  responses i m h := by simp [Connector.mail] at h
  topics := List.forall_mem_nil _

/-- At most one handler is called, and its subscription is on the channel of the frame. -/
theorem Connector.Addressed.deliveries_cases {c : Connector} (hc : c.Addressed) (a : Action) :
    c.deliveries a = [] ∨ ∃ i jframe m, c.deliveries a = [(i, jframe)] ∧ c.mail[i]? = some m ∧
      route jframe = some (.channel m.1) := by
  unfold deliveries
  split
  · rename_i jframe
    unfold addressee?
    split
    · rename_i index hroute
      rcases hcs : c.channelStates.lookup index with _ | cs
      · exact .inl rfl
      · rcases hacq : cs.acquired
        · simp [hacq]
        · rcases hi : cs.onEvent with _ | i
          · simp [hacq, hi]
          · obtain ⟨m, hm, htopic⟩ := hc index cs i hcs hacq hi
            exact .inr ⟨i, jframe, m, by simp [hacq, hi], hm, by rw [hroute, htopic]⟩
    · exact .inl rfl
  · exact .inl rfl

namespace Posted

variable {o : Post} {d : Connector}

/-- Nothing is handed over. -/
theorem keep (h : Posted o) (hd : d.Addressed) (hmail : KeepsMail o.connector d) :
    Posted { o with connector := d } where
  addressed := hd
  responses i m hi := by
    obtain ⟨fresh, hfresh, hmail'⟩ := hmail
    rcases Nat.lt_or_ge i o.connector.mail.length with hlt | hge
    · refine h.responses i m ?_
      rwa [hmail', List.getElem?_append_left hlt] at hi
    · -- nothing was handed over to a subscription that was not there
      rw [hmail', List.getElem?_append_right hge] at hi
      rw [hfresh m (List.mem_of_getElem? hi), eq_comm, List.map_eq_nil_iff, List.filter_eq_nil_iff]
      intro x hx hxi
      obtain ⟨m', hm', -⟩ := h.topics x hx
      obtain ⟨hlt, -⟩ := List.getElem?_eq_some_iff.mp hm'
      rw [of_decide_eq_true hxi] at hlt
      omega
  topics x hx := by
    obtain ⟨m, hm, hroute⟩ := h.topics x hx
    exact ⟨m, hmail.getElem? hm, hroute⟩

/-- A frame is handed over. -/
theorem deliver (h : Posted o) (hd : d.Addressed) {i : ℕ} {jframe : Json.Value}
    {m : ChannelMarketPair × List Json.Value} (hm : o.connector.mail[i]? = some m)
    (hroute : route jframe = some (.channel m.1))
    (hmail : d.mail = receive o.connector.mail (i, jframe)) :
    Posted { connector := d, delivered := o.delivered ++ [(i, jframe)] } where
  addressed := hd
  responses k n hk := by
    dsimp only at hk
    rw [hmail] at hk
    rw [List.filter_append, List.map_append]
    by_cases hik : i = k
    · subst hik
      rw [receive_getElem?_self hm, Option.some_inj] at hk
      rw [← hk, h.responses i m hm]
      simp
    · rw [receive_getElem?_ne hik] at hk
      rw [h.responses k n hk]
      simp [hik]
  topics x hx := by
    rcases List.mem_append.mp hx with hx | hx
    · obtain ⟨n, hn, hroute'⟩ := h.topics x hx
      obtain ⟨n', hn', hsame⟩ := receive_topic (i, jframe) hn
      exact ⟨n', hmail ▸ hn', by rw [hroute', hsame]⟩
    · obtain rfl := List.mem_singleton.mp hx
      obtain ⟨n', hn', hsame⟩ := receive_topic (i, jframe) hm
      exact ⟨n', hmail ▸ hn', by rw [hroute, hsame]⟩

end Posted

theorem postStep_posted {args : Args} {a : Action} {o u : Post} (h : Posted o)
    (hstep : postStep args a o = some u) : Posted u := by
  obtain ⟨d, hd, rfl⟩ := Option.map_eq_some_iff.mp hstep
  by_cases ha : a.IsConnection
  · obtain ⟨hchannels, hmail⟩ := connection_mail ha hd
    rw [Post.follow]
    rcases h.addressed.deliveries_cases a with hnone | ⟨i, jframe, m, hone, hm, hroute⟩
    · rw [hnone] at hmail
      rw [hnone, List.append_nil]
      exact h.keep (h.addressed.congr (.of_eq hmail) hchannels) (.of_eq hmail)
    · rw [hone, List.foldl_cons, List.foldl_nil] at hmail
      rw [hone]
      refine h.deliver (h.addressed.of_topics hchannels fun k n hn ↦ ?_) hm hroute hmail
      rw [hmail]
      exact receive_topic (i, jframe) hn
  · have hmoved : d.Addressed ∧ KeepsMail o.connector d :=
      subscription_invariant (I := fun d ↦ d.Addressed ∧ KeepsMail o.connector d)
        (fun hI hmove ↦ by
          obtain ⟨haddressed, hkeeps⟩ := hmove.addressed hI.1
          exact ⟨haddressed, hI.2.trans hkeeps⟩) ha ⟨h.addressed, .of_eq rfl⟩ hd
    -- nothing is read in the step of a subscription
    have hnone : o.connector.deliveries a = [] := by
      rcases a <;> first | rfl | exact absurd trivial ha
    rw [Post.follow, hnone, List.append_nil]
    exact h.keep hmoved.1 hmoved.2

/-- **Every response reaches the subscription it is for.** In any run a frame is handed over to at
most one subscription, which is on the channel and market that the frame names, and each
subscription has been given the frames handed over to it, in the order in which they were read. -/
theorem run_routes {args : Args} {actions : List Action} {c : Connector}
    (hrun : run args actions = some c) :
    ∃ o, post args actions = some o ∧ o.connector = c ∧
      (∀ i s, c.subs[i]? = some s →
        s.responses = (o.delivered.filter fun x ↦ x.1 = i).map Prod.snd) ∧
      ∀ x ∈ o.delivered, ∃ s, c.subs[x.1]? = some s ∧ route x.2 = some (.channel s.topic) := by
  have hpostStep (a : Action) (o : Post) :
      (postStep args a o).map Post.connector = step args a o.connector := by
    have hid : Post.connector ∘ o.follow a = id := rfl
    rw [postStep, Option.map_map, hid, Option.map_id_fun, id]
  have hpost : (post args actions).map Post.connector = some c :=
    (exec_map Post.connector hpostStep actions {}).trans hrun
  obtain ⟨o, ho, rfl⟩ := Option.map_eq_some_iff.mp hpost
  have hposted : Posted o := exec_invariant Posted postStep_posted posted_fresh ho
  refine ⟨o, ho, rfl, fun i s hi ↦ hposted.responses i s.mail (Connector.mail_getElem? hi),
    fun x hx ↦ ?_⟩
  obtain ⟨m, hm, hroute⟩ := hposted.topics x hx
  rw [Connector.mail, List.getElem?_map, Option.map_eq_some_iff] at hm
  obtain ⟨s, hs, rfl⟩ := hm
  exact ⟨s, hs, hroute⟩

def ethTrades : ChannelMarketPair := ⟨ascii "trades", ascii "ETH-PERP"⟩

/-- A frame on a channel. -/
def frameOn (topic : ChannelMarketPair) : Json.Value :=
  .object [(ascii "type", .string (ascii "update")), (ascii "channel", .string topic.channel),
    (ascii "market", .string topic.market)]

/-- Two subscriptions on two markets, and a frame for the second. -/
def twoMarkets : List Action :=
  [.start btcTrades, .start ethTrades, .resume 0 none, .resume 1 none, .reconnect,
    .connected true [btcTrades, ethTrades], .beginReader,
    .readMessage (.text (some (frameOn ethTrades)))]

theorem run_routes_twoMarkets :
    ∃ c o, run {} twoMarkets = some c ∧ post {} twoMarkets = some o ∧
      ∀ x ∈ o.delivered, ∃ s, c.subs[x.1]? = some s ∧ route x.2 = some (.channel s.topic) := by
  obtain ⟨o, ho, -, -, htopics⟩ := @run_routes {} twoMarkets _ rfl
  exact ⟨_, o, rfl, ho, htopics⟩

example : (post {} twoMarkets).map (fun o ↦ (o.delivered.map Prod.fst, o.connector.subs.map
    fun s ↦ s.responses.length)) = some ([1], [0, 1]) := by decide

end Ftx

end BoostConnector
