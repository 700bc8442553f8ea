import BoostConnector.Ftx.ChannelInterest

/-!
# The ownership of a channel

Who receives the events of a channel, and who will. A subscription that was woken takes the channel
without looking at the flag again, so ownership is exclusive only as long as no woken subscription
finds that somebody else was faster. And `cancel_one` may spend the only wake-up on a subscription
that is about to leave, so a hand-over is never lost only as long as it does not.
-/

namespace BoostConnector

namespace Ftx

theorem Pc.phase_eq_owning {pc : Pc} (h : pc.phase = .owning) :
    pc = .awaitingStop ∨ pc = .awaitingClosed := by
  cases pc <;> simp_all [Pc.phase]

/-! ## Exclusive ownership -/

/-- The subscription is between `state.acquired = true` and its own `release_channel`. -/
def Pc.isOwner : Pc → Bool
  | awaitingStop | awaitingClosed => true
  | spawned | waiting _ | left => false

theorem Pc.phase_of_isOwner {pc : Pc} (h : pc.isOwner = true) : pc.phase = .owning := by
  cases pc <;> simp_all [isOwner, Pc.phase]

namespace Connector

/-- A topic has at most one owner, the stored handler is the owner's, and no release found the
channel unacquired. -/
structure OwnsExclusively (c : Connector) : Prop where
  unique : ∀ (i j : ℕ) (s t : Subscription), c.subs[i]? = some s → c.subs[j]? = some t →
    s.pc.isOwner = true → t.pc.isOwner = true → s.topic = t.topic → i = j
  handler : ∀ (i : ℕ) (s : Subscription), c.subs[i]? = some s → s.pc.isOwner = true →
    ∃ cs, c.channelStates.lookup s.topic = some cs ∧ cs.acquired = true ∧ cs.onEvent = some i
  release : .releaseAcquired ∉ c.failed

end Connector

/-- The handler that an acquired channel stores is that of a subscription which is still in `run`,
so the state machine it refers to is alive. -/
theorem run_handler_alive {args : Args} {actions : List Action} {c : Connector}
    (hrun : run args actions = some c) {index : ChannelMarketPair} {cs : ChannelState}
    (hlookup : c.channelStates.lookup index = some cs) (hacq : cs.acquired = true) :
    ∃ i s, cs.onEvent = some i ∧ c.subs[i]? = some s ∧ s.topic = index ∧ s.pc.isOwner = true := by
  have hpath := run_path (C := fun _ _ ↦ True) (D := fun _ _ ↦ True)
    (fun _ _ _ _ _ _ _ _ ↦ trivial) (Transition.along_trivial actions _) hrun
  have hmanned : Handover.Manned c.view :=
    Handover.path_invariant (fun h _ hstep ↦ Handover.step_manned h hstep)
      Handover.manned_initial hpath
  obtain ⟨i, howner, p, hp, htopic, hown⟩ :=
    hmanned index cs.slot (Connector.view_slots hlookup) hacq
  obtain ⟨s, hs, rfl⟩ := Connector.parties_view_eq_some hp
  refine ⟨i, s, howner, hs, htopic, ?_⟩
  rcases Pc.phase_eq_owning hown with hpc | hpc
  all_goals
    rw [hpc]
    rfl

/-- The steps in which a subscription that was woken finds its channel unacquired. -/
def TakesFree (a : Action) (c : Connector) : Prop :=
  ∀ r ∈ a.resumed?, ∀ s ∈ c.subs[r.1]?, s.pc = .waiting .woken →
    ∀ cs ∈ c.channelStates.lookup s.topic, cs.acquired = false

instance (a : Action) (c : Connector) : Decidable (TakesFree a c) :=
  inferInstanceAs (Decidable (∀ r ∈ a.resumed?, ∀ s ∈ c.subs[r.1]?, s.pc = .waiting .woken →
    ∀ cs ∈ c.channelStates.lookup s.topic, cs.acquired = false))

theorem freeTakeover_of_takesFree {a : Action} {c : Connector} (ha : TakesFree a c)
    {l : Handover.Label ChannelMarketPair} {v w : Handover.State ChannelMarketPair}
    (hoffers : Offers c.view a l v) (hstep : Handover.Step l v w) : Handover.FreeTakeover l v := by
  cases hstep with
  | @takeover _ i _ _ hi hp hk =>
    intro p e hp' he
    rw [hi, Option.some_inj] at hp'
    subst hp'
    obtain ⟨wake, rfl, rfl⟩ := resume_of_offers (.inr rfl) hoffers
    obtain ⟨s, hs, rfl⟩ := Connector.parties_view_eq_some hi
    obtain ⟨cs, hlookup, rfl⟩ := Connector.slots_view_eq_some he
    exact ha (i, wake) rfl s hs (Pc.eq_waiting hp) cs hlookup
  | _ => trivial

/-- No release by an exclusive owner finds the channel unacquired. -/
theorem not_releaseFails_acquired {v : Handover.State ChannelMarketPair}
    (h : Handover.Exclusive v) (i : ℕ) : ¬Connector.ReleaseFails v i .releaseAcquired := by
  rintro ⟨p, e, hi, hp, hslot, ⟨-, hfree⟩ | ⟨hname, -⟩⟩
  · obtain ⟨f, hf, hacq, -⟩ := h p.key i ⟨p, hi, rfl, hp⟩
    rw [hslot, Option.some_inj] at hf
    rw [hf, hacq] at hfree
    exact Bool.noConfusion hfree
  · exact absurd hname (by decide)

/-- **Ownership is exclusive** in every run in which each woken subscription finds its channel
unacquired. -/
theorem run_ownsExclusively {args : Args} {actions : List Action} {c : Connector}
    (hC : Transition.Along (step args) TakesFree actions {}) (hrun : run args actions = some c) :
    c.OwnsExclusively := by
  obtain ⟨hexclusive, hrelease⟩ := run_invariant (D := Handover.FreeTakeover) (.inl rfl)
    Handover.exclusive_initial Handover.step_exclusive
    (fun _ i h ↦ not_releaseFails_acquired h i)
    (fun _ _ ha _ _ _ ↦ freeTakeover_of_takesFree ha) hC hrun
  have howned {i : ℕ} {s : Subscription} (hi : c.subs[i]? = some s) (hs : s.pc.isOwner = true) :
      c.view.OwnedBy s.topic i :=
    ⟨s.party, Connector.view_parties hi, rfl, Pc.phase_of_isOwner hs⟩
  refine ⟨fun i j s t hi hj hs ht htopic ↦ ?_, fun i s hi hs ↦ ?_, hrelease⟩
  · have hown := howned hi hs
    rw [htopic] at hown
    exact hexclusive.unique hown (howned hj ht)
  · obtain ⟨e, he, hacq, howner⟩ := hexclusive s.topic i (howned hi hs)
    obtain ⟨cs, hlookup, rfl⟩ := Connector.slots_view_eq_some he
    exact ⟨cs, hlookup, hacq, howner⟩

theorem run_ownsExclusively_handOver :
    ∃ c, run {} handOver = some c ∧ c.subs[1]?.map (·.pc) = some .awaitingStop ∧
      c.OwnsExclusively :=
  ⟨_, rfl, by decide, @run_ownsExclusively {} handOver _ (by decide) rfl⟩

/-- Between the release that wakes the second subscription and its resumption, a third one starts
and takes the channel. -/
def overtake : List Action :=
  [.start btcTrades, .start btcTrades, .resume 0 none, .resume 1 none, .stop 0,
    .resume 0 (some 1), .start btcTrades, .resume 2 none, .resume 1 none]

/-- Afterwards both own the channel. -/
theorem overtake_not_ownsExclusively : ∃ c, run {} overtake = some c ∧ ¬c.OwnsExclusively := by
  refine ⟨_, rfl, fun h ↦ ?_⟩
  have hsame := h.unique 1 2 _ _ rfl rfl rfl rfl rfl
  exact absurd hsame (by decide)

/-- The first of the two to leave clears the flag under the other. -/
example : (run {} (overtake ++ [.stop 1, .resume 1 none, .stop 2, .resume 2 none])).map (·.failed)
    = some [.releaseAcquired] := by decide

/-! ## No lost hand-over -/

namespace Connector

/-- If a channel is not acquired and somebody's wait on its `cv` is outstanding, the wait of
somebody else was completed, who takes the channel next. -/
def KeepsHandover (c : Connector) : Prop :=
  ∀ index cs, c.channelStates.lookup index = some cs → cs.acquired = false →
    (∃ s ∈ c.subs, s.WaitsOn index cs.node) →
    ∃ j s, c.subs[j]? = some s ∧ s.topic = index ∧ s.node = cs.node ∧ s.pc = .waiting .woken ∧
      ∀ wake, c.resume j wake = c.acquire j s wake

end Connector

/-- Nobody but subscription `j` has an outstanding wait on the channel of `s`. -/
def Connector.OnlyWaits (c : Connector) (j : ℕ) (s : Subscription) : Prop :=
  ∀ k < c.subs.length, k ≠ j → ∀ t ∈ c.subs[k]?, ¬t.WaitsOn s.topic s.node

instance (c : Connector) (j : ℕ) (s : Subscription) : Decidable (c.OnlyWaits j s) :=
  inferInstanceAs (Decidable (∀ k < c.subs.length, k ≠ j → ∀ t ∈ c.subs[k]?,
    ¬t.WaitsOn s.topic s.node))

/-- Somebody other than subscription `i` was woken on the channel of `s`. -/
def Connector.WokenBesides (c : Connector) (i : ℕ) (s : Subscription) : Prop :=
  ∃ k < c.subs.length, k ≠ i ∧
    ∃ t ∈ c.subs[k]?, t.topic = s.topic ∧ t.node = s.node ∧ t.pc = .waiting .woken

instance (c : Connector) (i : ℕ) (s : Subscription) : Decidable (c.WokenBesides i s) :=
  inferInstanceAs (Decidable (∃ k < c.subs.length, k ≠ i ∧
    ∃ t ∈ c.subs[k]?, t.topic = s.topic ∧ t.node = s.node ∧ t.pc = .waiting .woken))

/-- The steps in which `cancel_one` picks the wait of a subscription whose stop completed first only
if no other wait on the channel is outstanding, or a subscription other than the one that releases
has been woken already. -/
def WakesUsefully (a : Action) (c : Connector) : Prop :=
  ∀ r ∈ a.resumed?, ∀ j ∈ r.2, ∀ s ∈ c.subs[j]?, s.pc = .waiting .stopping →
    c.OnlyWaits j s ∨ c.WokenBesides r.1 s

instance (a : Action) (c : Connector) : Decidable (WakesUsefully a c) :=
  inferInstanceAs (Decidable (∀ r ∈ a.resumed?, ∀ j ∈ r.2, ∀ s ∈ c.subs[j]?,
    s.pc = .waiting .stopping → c.OnlyWaits j s ∨ c.WokenBesides r.1 s))

theorem Connector.exists_sub_of_party {c : Connector} {index : ChannelMarketPair} {node : ℕ}
    (h : ∃ q ∈ c.view.parties, q.WokenOn index node) :
    ∃ (j : ℕ) (s : Subscription), c.subs[j]? = some s ∧ s.topic = index ∧ s.node = node ∧
      s.pc = .waiting .woken := by
  obtain ⟨q, hq, htopic, hnode, hwoken⟩ := h
  obtain ⟨s, hs, rfl⟩ := List.mem_map.mp hq
  obtain ⟨j, hj⟩ := List.mem_iff_getElem?.mp hs
  exact ⟨j, s, hj, htopic, hnode, Pc.eq_waiting hwoken⟩

theorem usefulWake_of_wakesUsefully {a : Action} {c : Connector} (ha : WakesUsefully a c)
    {l : Handover.Label ChannelMarketPair} {v w : Handover.State ChannelMarketPair}
    (hoffers : Offers c.view a l v) (hstep : Handover.Step l v w) : Handover.UsefulWake l v := by
  cases hstep with
  | @releaseWake _ i j _ _ _ _ _ _ _ _ _ =>
    intro q hq hstopping
    cases a with
    | resume i' wake =>
      rcases hoffers with ⟨hl, -⟩ | ⟨hl, p, hp, hparties⟩
      · simp at hl
      obtain ⟨rfl, rfl⟩ : i = i' ∧ wake = some j := by simpa [eq_comm] using hl
      -- the party that releases owns, so it neither waits nor is it woken
      have hother {k : ℕ} {r : Handover.Party ChannelMarketPair} (hr : v.parties[k]? = some r)
          (hphase : r.phase ≠ .owning) : k ≠ i ∧ c.view.parties[k]? = some r := by
        rw [hparties] at hr
        rcases Handover.getElem?_setParty (s := c.view) hr with ⟨-, rfl⟩ | hr
        · exact absurd hp hphase
        · exact hr
      obtain ⟨-, hq'⟩ := hother hq (by simp [hstopping])
      obtain ⟨s, hs, rfl⟩ := Connector.parties_view_eq_some hq'
      rcases ha (i, some j) rfl j rfl s hs (Pc.eq_waiting hstopping) with hnone | hwoken
      · refine .inl fun k r hr hkj hwaits ↦ ?_
        obtain ⟨-, hr'⟩ := hother hr fun hown ↦ by
          simpa [hown, Handover.Phase.isOutstanding] using hwaits.2.2
        obtain ⟨t, ht, rfl⟩ := Connector.parties_view_eq_some hr'
        obtain ⟨hlt, -⟩ := List.getElem?_eq_some_iff.mp ht
        exact hnone k hlt hkj t ht hwaits
      · obtain ⟨k, -, hki, t, ht, htopic, hnode, hpc⟩ := hwoken
        refine .inr ⟨t.party, ?_, htopic, hnode, by rw [Subscription.party, hpc]; rfl⟩
        have ht' := Handover.getElem?_setParty_of_ne (p := p) hki (Connector.view_parties ht)
        rw [Handover.State.setParty_parties, ← hparties] at ht'
        exact List.mem_of_getElem? ht'
    | start topic => simp [Offers] at hoffers
    | stop k => simp [Offers] at hoffers
    | settle k => simp [Offers] at hoffers
    | _ => exact hoffers.elim
  | _ => trivial

/-- **No hand-over is lost** in every run in which `cancel_one` is not spent on a subscription that
leaves while others wait. -/
theorem run_keepsHandover {args : Args} {actions : List Action} {c : Connector}
    (hC : Transition.Along (step args) WakesUsefully actions {})
    (hrun : run args actions = some c) : c.KeepsHandover := by
  have hpath := run_path (fun _ _ ha _ _ _ ↦ usefulWake_of_wakesUsefully ha) hC hrun
  have hattended : Handover.Attended c.view :=
    Handover.path_invariant Handover.step_attended Handover.attended_initial hpath
  rintro index cs hlookup hfree ⟨s, hs, hwaits⟩
  have hwoken := hattended index cs.slot (Connector.view_slots hlookup) hfree
    ⟨s.party, List.mem_map_of_mem hs, hwaits⟩
  obtain ⟨j, t, ht, htopic, hnode, hpc⟩ := Connector.exists_sub_of_party hwoken
  refine ⟨j, t, ht, htopic, hnode, hpc, fun wake ↦ ?_⟩
  simp only [Connector.resume, ht, Option.bind_eq_bind, Option.bind_some, hpc]

/-- Two subscriptions wait when the first closes, and one of them is woken. -/
def wakeOne : List Action :=
  [.start btcTrades, .start btcTrades, .start btcTrades, .resume 0 none, .resume 1 none,
    .resume 2 none, .stop 0, .resume 0 (some 1)]

theorem run_keepsHandover_wakeOne :
    ∃ c, run {} wakeOne = some c ∧ c.subs[2]?.map (·.pc) = some (.waiting .suspended) ∧
      c.KeepsHandover :=
  ⟨_, rfl, by decide, @run_keepsHandover {} wakeOne _ (by decide) rfl⟩

/-- The same, but the one that is woken was stopped just before. -/
def wakeLeaving : List Action :=
  [.start btcTrades, .start btcTrades, .start btcTrades, .resume 0 none, .resume 1 none,
    .resume 2 none, .stop 0, .stop 1, .resume 0 (some 1), .resume 1 none]

/-- The third subscription waits for a channel that nobody holds, and nobody was woken. -/
theorem wakeLeaving_not_keepsHandover :
    ∃ c, run {} wakeLeaving = some c ∧ ¬c.KeepsHandover := by
  refine ⟨_, rfl, fun h ↦ ?_⟩
  have hwaits : ∃ s ∈ ((run {} wakeLeaving).get (by decide)).subs, s.WaitsOn btcTrades 0 := by
    decide
  obtain ⟨j, s, hj, -, -, hpc, -⟩ := h btcTrades _ rfl rfl hwaits
  have hnone : ∀ s ∈ ((run {} wakeLeaving).get (by decide)).subs, s.pc ≠ .waiting .woken := by
    decide
  exact hnone s (List.mem_of_getElem? hj) hpc

end Ftx

end BoostConnector
