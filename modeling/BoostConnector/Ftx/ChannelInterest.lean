import BoostConnector.Ftx.ConnectorHandover

/-!
# The interest in a channel

`channel_state.interest` counts the subscriptions that use a channel. It is never too small, so an
entry of the channel map outlives everybody who holds an iterator to it. It is exact as long as no
subscription leaves `run` because it was stopped while it waited for the channel: that exit returns
without giving the interest back.
-/

namespace BoostConnector

namespace Ftx

/-- The subscription has called `locate_channel` and has not left `run`. -/
def Pc.usesChannel : Pc → Bool
  | waiting _ | awaitingStop | awaitingClosed => true
  | spawned | left => false

theorem Pc.isInside_phase (pc : Pc) : pc.phase.isInside = pc.usesChannel := by
  cases pc <;> rfl

namespace Connector

/-- The number of subscriptions that use the channel. -/
def users (c : Connector) (index : ChannelMarketPair) : ℕ :=
  c.subs.countP fun s ↦ s.topic = index ∧ s.pc.usesChannel = true

theorem held_view (c : Connector) (index : ChannelMarketPair) :
    c.view.held index = c.users index := by
  rw [Handover.State.held, view, List.countP_map, users]
  refine List.countP_congr fun s _ ↦ ?_
  simp only [Function.comp_apply, Handover.Party.Holds, Subscription.party, Pc.isInside_phase]

/-! ## Entries are kept -/

/-- Every subscription that uses a channel finds the entry it located, and no interest is smaller
than the number of users of its channel, or was ever decremented below zero. -/
structure KeepsEntries (c : Connector) : Prop where
  entry : ∀ s ∈ c.subs, s.pc.usesChannel = true →
    ∃ cs, c.channelStates.lookup s.topic = some cs ∧ cs.node = s.node
  interest : ∀ index cs, c.channelStates.lookup index = some cs →
    (c.users index : ℤ) ≤ cs.interest ∧ 0 < cs.interest
  decrement : .releaseInterest ∉ c.failed

end Connector

/-- No release finds the interest used up. -/
theorem not_releaseFails_interest {v : Handover.State ChannelMarketPair} (h : Handover.Counted v)
    (i : ℕ) : ¬Connector.ReleaseFails v i .releaseInterest := by
  rintro ⟨p, e, -, -, hslot, ⟨hname, -⟩ | ⟨-, hzero⟩⟩
  · exact absurd hname (by decide)
  · have hpos := (h.bound hslot).2
    omega

theorem run_counted {args : Args} {actions : List Action} {c : Connector}
    (hrun : run args actions = some c) :
    Handover.Counted c.view ∧ .releaseInterest ∉ c.failed :=
  run_invariant (C := fun _ _ ↦ True) (D := fun _ _ ↦ True) (.inr rfl) Handover.counted_initial
    (fun h _ hstep ↦ Handover.step_counted h hstep) (fun _ i h ↦ not_releaseFails_interest h i)
    (fun _ _ _ _ _ _ _ _ ↦ trivial) (Transition.along_trivial actions _) hrun

/-- **No channel entry is erased under a subscription that uses it**, in any run. -/
theorem run_keepsEntries {args : Args} {actions : List Action} {c : Connector}
    (hrun : run args actions = some c) : c.KeepsEntries := by
  obtain ⟨hcounted, hdecrement⟩ := run_counted hrun
  refine ⟨fun s hs huses ↦ ?_, fun index cs hlookup ↦ ?_, hdecrement⟩
  · have hparty : s.party ∈ c.view.parties := List.mem_map_of_mem hs
    have hholds : s.party.Holds s.topic := ⟨rfl, s.pc.isInside_phase.trans huses⟩
    cases hslot : c.view.slots s.topic with
    | none => exact absurd hholds (hcounted.not_holds hslot hparty)
    | some e =>
      obtain ⟨cs, hlookup, rfl⟩ := Connector.slots_view_eq_some hslot
      exact ⟨cs, hlookup, (hcounted.node hslot hparty hholds).symm⟩
  · have hbound := hcounted.bound (Connector.view_slots hlookup)
    rwa [Connector.held_view] at hbound

/-- The topic of the runs below. -/
def btcTrades : ChannelMarketPair := ⟨ascii "trades", ascii "BTC-PERP"⟩

/-- A second subscription waits while the first one closes and hands the channel over. -/
def handOver : List Action :=
  [.start btcTrades, .start btcTrades, .resume 0 none, .resume 1 none, .stop 0, .resume 0 (some 1),
    .resume 1 none]

theorem run_keepsEntries_handOver :
    ∃ c, run {} handOver = some c ∧ c.users btcTrades = 1 ∧ c.KeepsEntries :=
  ⟨_, rfl, by decide, @run_keepsEntries {} handOver _ rfl⟩

/-! ## Interest is given back -/

namespace Connector

/-- No interest exceeds the number of users of its channel, and a channel without users has no
entry. -/
def SettlesInterest (c : Connector) : Prop :=
  ∀ index, (∀ cs, c.channelStates.lookup index = some cs → cs.interest ≤ c.users index) ∧
    (c.users index = 0 → c.channelStates.lookup index = none)

end Connector

/-- The steps in which no subscription leaves `run` because it was stopped while it waited for its
channel. -/
def NotStoppedWaiting (a : Action) (c : Connector) : Prop :=
  ∀ r ∈ a.resumed?, ∀ s ∈ c.subs[r.1]?, s.pc ≠ .waiting .stopped

instance (a : Action) (c : Connector) : Decidable (NotStoppedWaiting a c) :=
  inferInstanceAs (Decidable (∀ r ∈ a.resumed?, ∀ s ∈ c.subs[r.1]?, s.pc ≠ .waiting .stopped))

/-- A step in which nobody leaves while it waits takes no `quit` of the protocol. -/
theorem not_quit_of_notStoppedWaiting {a : Action} {c : Connector} (ha : NotStoppedWaiting a c)
    {l : Handover.Label ChannelMarketPair} {v w : Handover.State ChannelMarketPair}
    (hoffers : Offers c.view a l v) (hstep : Handover.Step l v w) (i : ℕ) : l ≠ .quit i := by
  rintro rfl
  cases hstep with
  | quit hi hp =>
    obtain ⟨wake, rfl, rfl⟩ := resume_of_offers (.inl rfl) hoffers
    obtain ⟨s, hs, rfl⟩ := Connector.parties_view_eq_some hi
    exact ha (i, wake) rfl s hs (Pc.eq_waiting hp)

/-- **All interest is given back** in every run in which no subscription leaves because it was
stopped while it waited for its channel. -/
theorem run_settlesInterest {args : Args} {actions : List Action} {c : Connector}
    (hC : Transition.Along (step args) NotStoppedWaiting actions {})
    (hrun : run args actions = some c) : c.SettlesInterest := by
  have hinv : (Handover.Counted c.view ∧ Handover.Exact c.view) ∧ .releaseInterest ∉ c.failed :=
    run_invariant (D := fun l _ ↦ ∀ i, l ≠ .quit i)
      (I := fun v ↦ Handover.Counted v ∧ Handover.Exact v) (.inr rfl)
      ⟨Handover.counted_initial, Handover.exact_initial⟩
      (fun h hl hstep ↦ ⟨Handover.step_counted h.1 hstep, Handover.step_exact h.1 h.2 hl hstep⟩)
      (fun _ i h ↦ not_releaseFails_interest h.1 i)
      (fun _ _ ha _ _ _ hoffers hstep ↦ not_quit_of_notStoppedWaiting ha hoffers hstep) hC hrun
  obtain ⟨⟨hcounted, hexact⟩, -⟩ := hinv
  have hinterest {index : ChannelMarketPair} {cs : ChannelState}
      (hlookup : c.channelStates.lookup index = some cs) : cs.interest = c.users index := by
    rw [← Connector.held_view]
    exact hexact index _ (Connector.view_slots hlookup)
  refine fun index ↦ ⟨fun cs hlookup ↦ (hinterest hlookup).le, fun hnone ↦ ?_⟩
  cases hlookup : c.channelStates.lookup index with
  | none => rfl
  | some cs =>
    have hpos := (hcounted.bound (Connector.view_slots hlookup)).2
    have heq : cs.slot.interest = c.users index := hinterest hlookup
    omega

theorem run_settlesInterest_handOver :
    ∃ c, run {} handOver = some c ∧ c.users btcTrades = 1 ∧ c.SettlesInterest :=
  ⟨_, rfl, by decide, @run_settlesInterest {} handOver _ (by decide) rfl⟩

/-- The second subscription is stopped while it waits and leaves; then the first one closes. -/
def leakInterest : List Action :=
  [.start btcTrades, .start btcTrades, .resume 0 none, .resume 1 none, .stop 1, .settle 1,
    .resume 1 none, .stop 0, .resume 0 none]

/-- Both subscriptions have left, and the entry of their topic is still there. -/
theorem leakInterest_not_settlesInterest :
    ∃ c, run {} leakInterest = some c ∧ c.users btcTrades = 0 ∧ ¬c.SettlesInterest := by
  refine ⟨_, rfl, by decide, fun h ↦ ?_⟩
  have hnone := (h btcTrades).2 (by decide)
  exact absurd hnone (by decide)

end Ftx

end BoostConnector
