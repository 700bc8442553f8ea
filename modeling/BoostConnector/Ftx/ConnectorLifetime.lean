import BoostConnector.Ftx.SubscriptionStays

/-!
# The lifetime of a connector

The users of a connector have `websocket_connector`s, and an `upstream_subscription_impl` has one of
its own in `connection_`: all of them copies of one `lifetime_ptr`, whose deleter stops the
connector. A subscription is owned in the same way: by the deleter of its own `lifetime_ptr`, which
stops it, by the handler that `start` gives to `co_spawn` along with `run`, and by the `stop` that
the deleter posts. So lifetimes nest. The connector is stopped when there is no user left and no
subscription alive, and that is after every subscription has unsubscribed and gone
(`Holdings.run_outlives`).

A subscription is made from a user's `websocket_connector`, since `connection_` is protected.
-/

namespace BoostConnector

namespace Ftx

open Transition

/-! ## Owners -/

/-- The owners of a subscription. Its deleter lives in the block that the copies of the
`lifetime_ptr` share, and `weak_lifetime_ptr`s keep that block. The standard does not say when the
deleter itself is destroyed: here it goes with the block, as in libstdc++ and in MSVC. -/
structure Owners where
  copies : ℕ := 1
  watchers : ℕ := 0
  /-- `stop` was dispatched and has not run yet. -/
  stopPosted : Bool := false
  /-- The completion handler of `run`. -/
  handler : Bool := true

namespace Owners

variable (o : Owners)

def alive : Bool :=
  decide (o.copies ≠ 0) || decide (o.watchers ≠ 0) || o.stopPosted || o.handler

def copy : Option Owners := if o.copies = 0 then none else some { o with copies := o.copies + 1 }

/-- The deleter runs with the last copy. -/
def drop : Option Owners :=
  if o.copies = 0 then none
  else some { o with copies := o.copies - 1, stopPosted := o.stopPosted || decide (o.copies = 1) }

def watch : Option Owners :=
  if o.copies = 0 ∧ o.watchers = 0 then none else some { o with watchers := o.watchers + 1 }

def unwatch : Option Owners :=
  if o.watchers = 0 then none else some { o with watchers := o.watchers - 1 }

end Owners

/-- A connector, the `websocket_connector`s its users have, and the owners of its subscriptions. -/
structure Holdings where
  connector : Connector := {}
  handles : ℕ := 1
  owners : List Owners := []
  /-- The connector's `stop` was dispatched and has not run yet. -/
  stopPosted : Bool := false

namespace Holdings

/-- The copies of the connector's `lifetime_ptr`. -/
def copies (h : Holdings) : ℕ := h.handles + h.owners.countP Owners.alive

def modifyOwners (h : Holdings) (i : ℕ) (f : Owners → Option Owners) : Option Holdings := do
  let o ← h.owners[i]?
  let o ← f o
  some { h with owners := h.owners.set i o }

inductive Action where
  | copyHandle
  | dropHandle
  /-- Makes a subscription from a copy of a user's `websocket_connector`. -/
  | subscribe (topic : ChannelMarketPair)
  | copy (i : ℕ)
  | drop (i : ℕ)
  | watch (i : ℕ)
  | unwatch (i : ℕ)
  /-- The `stop` of a subscription runs. -/
  | deliverStop (i : ℕ)
  /-- The completion handler of a subscription's `run` is called, and destroyed. -/
  | complete (i : ℕ)
  /-- The `stop` of the connector runs. -/
  | deliver
  | own (a : Ftx.Action)

/-- An action without the deleter of the connector's `lifetime_ptr`. -/
def advance (args : Args) : Action → Holdings → Option Holdings
  | .copyHandle, h => if h.handles = 0 then none else some { h with handles := h.handles + 1 }
  | .dropHandle, h => if h.handles = 0 then none else some { h with handles := h.handles - 1 }
  | .subscribe topic, h =>
    if h.handles = 0 then none
    else (Ftx.step args (.start topic) h.connector).map fun connector ↦
      { h with connector, owners := h.owners ++ [{}] }
  | .copy i, h => h.modifyOwners i Owners.copy
  | .drop i, h => h.modifyOwners i Owners.drop
  | .watch i, h => h.modifyOwners i Owners.watch
  | .unwatch i, h => h.modifyOwners i Owners.unwatch
  | .deliverStop i, h => do
    let connector ← Ftx.step args (.stop i) h.connector
    { h with connector }.modifyOwners i fun o ↦
      if o.stopPosted then some { o with stopPosted := false } else none
  | .complete i, h => do
    let s ← h.connector.subs[i]?
    h.modifyOwners i fun o ↦
      if o.handler ∧ s.pc = .left then some { o with handler := false } else none
  | .deliver, h =>
    if h.stopPosted then
      (Ftx.step args .requestStop h.connector).map fun connector ↦
        { h with connector, stopPosted := false }
    else none
  | .own a, h =>
    if a.isOwn then
      (Ftx.step args a h.connector).map fun connector ↦ { h with connector }
    else none

/-- The deleter runs with the last copy. -/
def step (args : Args) (a : Action) (h : Holdings) : Option Holdings :=
  (advance args a h).map fun t ↦
    { t with stopPosted := t.stopPosted || decide (h.copies ≠ 0 ∧ t.copies = 0) }

/-- The run on a list of actions, from a connector that was just made. -/
def run (args : Args) (actions : List Action) : Option Holdings := exec (step args) actions {}

end Holdings

/-! ## Owners and their subscriptions -/

/-- The subscription is told to stop just when nobody has a copy, and the handler stays as long as
`run` does. -/
structure Owners.Match (o : Owners) (s : Subscription) : Prop where
  stopped : (o.stopPosted = true ∨ s.stopLatch = true) ↔ o.copies = 0
  left : o.handler = false → s.pc = .left

theorem Owners.Match.stays {o : Owners} {s t : Subscription} (h : o.Match s) (hst : s.Stays t) :
    o.Match t := ⟨by rw [hst.stopLatch, h.stopped], fun hhandler ↦ hst.left (h.left hhandler)⟩

theorem Owners.match_new (topic : ChannelMarketPair) : Match {} (.new topic) where
  stopped := by simp [Subscription.new]
  left h := absurd h (by decide)

structure Matched (owners : List Owners) (subs : List Subscription) : Prop where
  length : owners.length = subs.length
  each : ∀ (i : ℕ) (o : Owners) (s : Subscription), owners[i]? = some o → subs[i]? = some s →
    o.Match s

namespace Matched

variable {owners : List Owners} {subs : List Subscription} {i : ℕ} {o : Owners} {s : Subscription}

theorem exists_sub (h : Matched owners subs) (hi : owners[i]? = some o) :
    ∃ s, subs[i]? = some s ∧ o.Match s := by
  have hlt : i < subs.length := h.length ▸ (List.getElem?_eq_some_iff.mp hi).1
  exact ⟨subs[i], List.getElem?_eq_getElem hlt, h.each i o _ hi (List.getElem?_eq_getElem hlt)⟩

theorem set (h : Matched owners subs) (i : ℕ) (ho : o.Match s) :
    Matched (owners.set i o) (subs.set i s) := by
  refine ⟨by rw [List.length_set, List.length_set, h.length], fun j p t hj ht ↦ ?_⟩
  by_cases hij : i = j
  · subst hij
    rw [List.getElem?_set, if_pos rfl] at hj ht
    split_ifs at hj ht
    exact Option.some_inj.mp hj ▸ Option.some_inj.mp ht ▸ ho
  · rw [List.getElem?_set_ne hij] at hj ht
    exact h.each j p t hj ht

theorem setOwners (h : Matched owners subs) (hi : subs[i]? = some s) (ho : o.Match s) :
    Matched (owners.set i o) subs := by
  obtain ⟨hlt, rfl⟩ := List.getElem?_eq_some_iff.mp hi
  have hset := h.set i ho
  rwa [List.set_getElem_self hlt] at hset

theorem setSub (h : Matched owners subs) (hi : owners[i]? = some o) (ho : o.Match s) :
    Matched owners (subs.set i s) := by
  obtain ⟨hlt, rfl⟩ := List.getElem?_eq_some_iff.mp hi
  have hset := h.set i ho
  rwa [List.set_getElem_self hlt] at hset

theorem keepsSubs {c d : Connector} (h : Matched owners c.subs) (hcd : c.KeepsSubs d) :
    Matched owners d.subs := by
  refine ⟨h.length.trans hcd.length.symm, fun i o t hi ht ↦ ?_⟩
  obtain ⟨s, hs, hmatch⟩ := h.exists_sub hi
  obtain ⟨t', ht', hst⟩ := hcd.stays i s hs
  obtain rfl : t = t' := Option.some_inj.mp (ht.symm.trans ht')
  exact hmatch.stays hst

theorem append (h : Matched owners subs) (ho : o.Match s) :
    Matched (owners ++ [o]) (subs ++ [s]) := by
  refine ⟨by simp [h.length], fun i p t hp ht ↦ ?_⟩
  rcases Nat.lt_trichotomy i owners.length with hlt | rfl | hgt
  · rw [List.getElem?_append_left hlt] at hp
    rw [List.getElem?_append_left (h.length ▸ hlt)] at ht
    exact h.each i p t hp ht
  · rw [List.getElem?_concat_length, Option.some_inj] at hp
    rw [h.length, List.getElem?_concat_length, Option.some_inj] at ht
    exact hp ▸ ht ▸ ho
  · rw [List.getElem?_eq_none (by simpa [Nat.succ_le_iff] using hgt)] at hp
    simp at hp

end Matched

namespace Owners

variable {o p : Owners}

/-- What the users do to the copies of a subscription they have. -/
inductive Move (o : Owners) : Owners → Prop
  | copy (hcopies : o.copies ≠ 0) : Move o { o with copies := o.copies + 1 }
  | drop (hcopies : o.copies ≠ 0) : Move o
      { o with copies := o.copies - 1, stopPosted := o.stopPosted || decide (o.copies = 1) }
  | watch (hkept : o.copies ≠ 0 ∨ o.watchers ≠ 0) : Move o { o with watchers := o.watchers + 1 }
  | unwatch (hwatchers : o.watchers ≠ 0) : Move o { o with watchers := o.watchers - 1 }

theorem Move.alive (h : o.Move p) : o.alive = true := by
  cases h <;> simp_all [Owners.alive]

theorem Move.match {s : Subscription} (h : o.Move p) (ho : o.Match s) : p.Match s := by
  have hstopped := ho.stopped
  refine ⟨?_, ?_⟩
  · cases h with
    | copy hcopies => simp_all
    | drop hcopies =>
      -- a subscription with copies was not told yet, so it is told by the last drop
      have hnot := not_or.mp (mt hstopped.mp hcopies)
      have hone : o.copies - 1 = 0 ↔ o.copies = 1 := by omega
      simp [hnot.1, hnot.2, hone]
    | watch _ => exact hstopped
    | unwatch _ => exact hstopped
  · cases h <;> exact ho.left

end Owners

namespace Holdings

variable {args : Args} {h t : Holdings} {i : ℕ} {o p : Owners}

/-- The connector was told to stop, or will be. -/
def Told (h : Holdings) : Prop := h.stopPosted = true ∨ h.connector.stopRequested = true

theorem copies_eq_zero : h.copies = 0 ↔ h.handles = 0 ∧ ∀ o ∈ h.owners, o.alive = false := by
  simp [copies, List.countP_eq_zero]

/-- What an action leaves behind before the deleter looks at it. -/
structure Advances (args : Args) (h t : Holdings) : Prop where
  connector : t.connector = h.connector ∨ ∃ b, Ftx.step args b h.connector = some t.connector
  matched : Matched t.owners t.connector.subs
  told : t.Told ↔ h.Told
  gone : h.copies = 0 → t.copies = 0

theorem modifyOwners_eq_some {f : Owners → Option Owners} (ht : h.modifyOwners i f = some t) :
    ∃ o p, h.owners[i]? = some o ∧ f o = some p ∧ t = { h with owners := h.owners.set i p } := by
  rw [modifyOwners, Option.bind_eq_bind, Option.bind_eq_some_iff] at ht
  obtain ⟨o, hi, ht⟩ := ht
  obtain ⟨p, hp, ht⟩ := Option.bind_eq_some_iff.mp ht
  exact ⟨o, p, hi, hp, (Option.some_inj.mp ht).symm⟩

/-- Only a subscription that is alive has owners to change. -/
theorem modify_advances (hm : Matched h.owners h.connector.subs) (hi : h.owners[i]? = some o)
    (halive : o.alive = true)
    (hmatch : ∀ s, h.connector.subs[i]? = some s → o.Match s → p.Match s) :
    Advances args h { h with owners := h.owners.set i p } where
  connector := .inl rfl
  matched := by
    obtain ⟨s, hs, hos⟩ := hm.exists_sub hi
    exact hm.setOwners hs (hmatch s hs hos)
  told := Iff.rfl
  gone hzero := by
    have hdead := (copies_eq_zero.mp hzero).2 o (List.mem_of_getElem? hi)
    exact absurd (halive.symm.trans hdead) (by decide)

theorem move_advances (hm : Matched h.owners h.connector.subs) {f : Owners → Option Owners}
    (hf : ∀ o p, f o = some p → o.Move p) (ht : h.modifyOwners i f = some t) :
    Advances args h t := by
  obtain ⟨o, p, hi, hp, rfl⟩ := modifyOwners_eq_some ht
  exact modify_advances hm hi (hf o p hp).alive fun s _ hos ↦ (hf o p hp).match hos

/-- The connector goes on, and its users and their subscriptions do not. -/
theorem connector_advances {b : Ftx.Action} {d : Connector} {posted : Bool}
    (hstep : Ftx.step args b h.connector = some d) (hm : Matched h.owners d.subs)
    (htold : Told { h with connector := d, stopPosted := posted } ↔ h.Told) :
    Advances args h { h with connector := d, stopPosted := posted } where
  connector := .inr ⟨b, hstep⟩
  matched := hm
  told := htold
  gone := id

theorem deliverStop_advances (hm : Matched h.owners h.connector.subs)
    (ht : advance args (.deliverStop i) h = some t) : Advances args h t := by
  obtain ⟨d, hd, ht⟩ := Option.bind_eq_some_iff.mp ht
  obtain ⟨o, p, hi, hp, rfl⟩ := modifyOwners_eq_some ht
  split_ifs at hp with hposted
  obtain rfl := Option.some_inj.mp hp
  -- what was posted is now in the latch, so the subscription is still told to stop
  obtain ⟨s, s', hs, rfl, hlatch, -, hleft⟩ := Connector.stop_latches hd
  have hmatch : o.Match s := hm.each i o s hi hs
  refine ⟨.inr ⟨_, hd⟩, hm.set i ⟨?_, hleft ∘ hmatch.left⟩, Iff.rfl, fun hzero ↦ ?_⟩
  · exact iff_of_true (.inr hlatch) (hmatch.stopped.mp (.inl hposted))
  · have hdead := (copies_eq_zero.mp hzero).2 o (List.mem_of_getElem? hi)
    simp [Owners.alive, hposted] at hdead

theorem advance_advances {a : Action} (hm : Matched h.owners h.connector.subs)
    (ht : advance args a h = some t) : Advances args h t := by
  cases a with
  | copyHandle =>
    simp only [advance] at ht
    split_ifs at ht with hhandles
    obtain rfl := Option.some_inj.mp ht
    exact ⟨.inl rfl, hm, Iff.rfl, fun hzero ↦ absurd (copies_eq_zero.mp hzero).1 hhandles⟩
  | dropHandle =>
    simp only [advance] at ht
    split_ifs at ht with hhandles
    obtain rfl := Option.some_inj.mp ht
    exact ⟨.inl rfl, hm, Iff.rfl, fun hzero ↦ absurd (copies_eq_zero.mp hzero).1 hhandles⟩
  | subscribe topic =>
    simp only [advance] at ht
    split_ifs at ht with hhandles
    obtain rfl := Option.some_inj.mp ht
    exact ⟨.inr ⟨.start topic, rfl⟩, hm.append (Owners.match_new topic), Iff.rfl,
      fun hzero ↦ absurd (copies_eq_zero.mp hzero).1 hhandles⟩
  | copy i =>
    refine move_advances hm (fun o p hp ↦ ?_) ht
    simp only [Owners.copy] at hp
    split_ifs at hp with hcopies
    exact Option.some_inj.mp hp ▸ .copy hcopies
  | drop i =>
    refine move_advances hm (fun o p hp ↦ ?_) ht
    simp only [Owners.drop] at hp
    split_ifs at hp with hcopies
    exact Option.some_inj.mp hp ▸ .drop hcopies
  | watch i =>
    refine move_advances hm (fun o p hp ↦ ?_) ht
    simp only [Owners.watch] at hp
    split_ifs at hp with hnone
    exact Option.some_inj.mp hp ▸ .watch (Decidable.not_and_iff_or_not.mp hnone)
  | unwatch i =>
    refine move_advances hm (fun o p hp ↦ ?_) ht
    simp only [Owners.unwatch] at hp
    split_ifs at hp with hwatchers
    exact Option.some_inj.mp hp ▸ .unwatch hwatchers
  | deliverStop i => exact deliverStop_advances hm ht
  | complete i =>
    obtain ⟨s, hs, ht⟩ := Option.bind_eq_some_iff.mp ht
    obtain ⟨o, p, hi, hp, rfl⟩ := modifyOwners_eq_some ht
    split_ifs at hp with hdone
    obtain rfl := Option.some_inj.mp hp
    refine modify_advances hm hi (by simp [Owners.alive, hdone.1]) fun s' hs' hos ↦ ?_
    obtain rfl : s = s' := Option.some_inj.mp (hs.symm.trans hs')
    exact ⟨hos.stopped, fun _ ↦ hdone.2⟩
  | deliver =>
    simp only [advance] at ht
    split_ifs at ht with hposted
    obtain rfl := Option.some_inj.mp ht
    exact connector_advances (b := .requestStop) rfl hm (iff_of_true (.inr rfl) (.inl hposted))
  | own b =>
    simp only [advance] at ht
    split_ifs at ht with hown
    obtain ⟨d, hd, rfl⟩ := Option.map_eq_some_iff.mp ht
    obtain ⟨hkeeps, hstop⟩ := own_keepsSubs hown hd
    refine connector_advances hd (hm.keepsSubs hkeeps) ?_
    rw [Told, Told, hstop]

/-! ## Runs -/

/-- What holds in every state of a run. -/
structure Sound (args : Args) (h : Holdings) : Prop where
  reached : ∃ actions, Ftx.run args actions = some h.connector
  matched : Matched h.owners h.connector.subs
  told : h.Told ↔ h.copies = 0

theorem sound_fresh : Sound args {} where
  reached := ⟨[], rfl⟩
  matched := ⟨rfl, fun i o s hi ↦ by simp at hi⟩
  told := iff_of_false (by simp [Told]) (by decide)

theorem step_sound {a : Action} (hh : h.Sound args) (hstep : step args a h = some t) :
    t.Sound args := by
  obtain ⟨u, hu, rfl⟩ := Option.map_eq_some_iff.mp hstep
  have hadv := advance_advances hh.matched hu
  refine ⟨?_, hadv.matched, ?_⟩
  · obtain ⟨actions, hrun⟩ := hh.reached
    rcases hadv.connector with heq | ⟨b, hb⟩
    · exact ⟨actions, hrun.trans (congrArg some heq.symm)⟩
    · refine ⟨actions ++ [b], ?_⟩
      rw [Ftx.run, exec_concat, ← Ftx.run, hrun]
      exact hb
  · have htold := hadv.told.trans hh.told
    by_cases hzero : h.copies = 0
    · exact iff_of_true ((htold.mpr hzero).imp_left fun hposted ↦ by simp [hposted])
        (hadv.gone hzero)
    · -- nothing was posted yet, so it is the deleter that decides
      have hnot := not_or.mp (mt htold.mp hzero)
      calc Told { u with stopPosted := u.stopPosted || decide (h.copies ≠ 0 ∧ u.copies = 0) }
        _ ↔ (u.stopPosted || decide (h.copies ≠ 0 ∧ u.copies = 0)) = true := or_iff_left hnot.2
        _ ↔ u.copies = 0 := by simp [hnot.1, hzero]

/-- The connector of a run is one that the connector gets to by itself, so what holds in every run
of the connector holds here. -/
theorem Sound.sound (h' : h.Sound args) : h.connector.Sound := by
  obtain ⟨actions, hrun⟩ := h'.reached
  exact exec_invariant Connector.Sound Connector.step_sound Connector.sound_fresh hrun

/-- The lifetimes of the subscriptions nest in that of the connector. -/
structure Nested (h : Holdings) : Prop where
  /-- A subscription is stopped when nobody has a copy any more. -/
  subscription : ∀ (i : ℕ) (o : Owners) (s : Subscription), h.owners[i]? = some o →
    h.connector.subs[i]? = some s → ((o.stopPosted = true ∨ s.stopLatch = true) ↔ o.copies = 0)
  connector : h.Told ↔ h.handles = 0 ∧ ∀ o ∈ h.owners, o.alive = false
  left : h.Told → ∀ s ∈ h.connector.subs, s.pc = .left
  released : h.Told → ∀ index, ∀ cs ∈ h.connector.channelStates.lookup index, cs.acquired = false

theorem Sound.left (h' : h.Sound args) (htold : h.Told) {s : Subscription}
    (hs : s ∈ h.connector.subs) : s.pc = .left := by
  obtain ⟨i, hi⟩ := List.getElem?_of_mem hs
  have hlt : i < h.owners.length := h'.matched.length ▸ (List.getElem?_eq_some_iff.mp hi).1
  have ho := List.getElem?_eq_getElem hlt
  have hdead := (copies_eq_zero.mp (h'.told.mp htold)).2 _ (List.mem_of_getElem? ho)
  refine (h'.matched.each i _ s ho hi).left ?_
  simp only [Owners.alive, Bool.or_eq_false_iff] at hdead
  exact hdead.2

/-- **The connector outlives its subscriptions.** It is stopped just when no user has it and no
subscription is alive, and by then every subscription has left `run` and no channel is acquired. -/
theorem run_outlives {actions : List Action} (hrun : run args actions = some h) : h.Nested := by
  have hsound : h.Sound args := exec_invariant (Sound args) step_sound sound_fresh hrun
  refine ⟨fun i o s ho hs ↦ (hsound.matched.each i o s ho hs).stopped,
    hsound.told.trans copies_eq_zero, fun htold s ↦ hsound.left htold, fun htold index cs hcs ↦ ?_⟩
  rw [← Bool.not_eq_true]
  intro hacquired
  obtain ⟨j, -, p, hp, -, howning⟩ :=
    hsound.sound.manned index cs.slot (Connector.view_slots hcs) hacquired
  obtain ⟨s, hs, rfl⟩ := Connector.parties_view_eq_some hp
  have hleft := hsound.left htold (List.mem_of_getElem? hs)
  simp [Subscription.party, hleft, Pc.phase] at howning

/-- The user goes first and the subscription is dropped later. -/
def userLeaves : List Action :=
  [.subscribe btcTrades, .dropHandle, .own (.resume 0 none), .copy 0, .drop 0, .drop 0,
    .deliverStop 0, .own (.resume 0 none), .complete 0, .deliver]

theorem run_outlives_userLeaves : ∃ h, run {} userLeaves = some h ∧
    h.connector.stopRequested = true ∧ h.Nested :=
  ⟨_, rfl, rfl, @run_outlives {} _ userLeaves rfl⟩

end Holdings

end Ftx

end BoostConnector
