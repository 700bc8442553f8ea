import BoostConnector.Ftx.ChannelInterest
import BoostConnector.Ftx.SubscriptionStays
import BoostConnector.Ftx.VenueRest

/-!
# A subscription gets on

What stands between a subscription and the end of its `run` is what `run` waits for: the channel,
the stop latch, the closed latch. Where that is there it can go on, whichever of the waiting
subscriptions a release wakes (`resume_enabled`). Each time it goes on it comes closer to the end
(`Pc.rank`), and what it sends on the way costs less than it has come (`resume_toll`).
-/

namespace BoostConnector

namespace Ftx

/-- `run` can go on. -/
def Subscription.ready (s : Subscription) : Bool :=
  match s.pc with
  | .spawned | .waiting .stopped | .waiting .woken => true
  | .awaitingStop => s.stopLatch
  | .awaitingClosed => s.sm.closedLatch
  | .waiting .suspended | .waiting .stopping | .left => false

namespace Connector

variable {c d : Connector} {i : ℕ} {s : Subscription} {wake : Option ℕ}

/-! ## It can go on -/

theorem cancelOne_enabled (c : Connector) (index : ChannelMarketPair) (node : ℕ) :
    ∃ wake d, c.cancelOne index node wake = some d := by
  by_cases hwaits : ∃ s ∈ c.subs, s.WaitsOn index node
  · obtain ⟨s, hs, hs'⟩ := hwaits
    obtain ⟨j, hj⟩ := List.mem_iff_getElem?.mp hs
    exact ⟨some j, c.setSub j { s with pc := s.pc.wake }, by rw [cancelOne, hj]; exact if_pos hs'⟩
  · exact ⟨none, c, if_neg hwaits⟩

theorem releaseChannel_enabled {index : ChannelMarketPair} {node : ℕ} {cs : ChannelState}
    (hcs : c.element index node = some cs) :
    ∃ wake d, c.releaseChannel index node wake = some d := by
  simp only [releaseChannel, hcs, Option.bind_eq_bind, Option.bind_some]
  split_ifs with hlast
  · exact ⟨none, _, if_pos rfl⟩
  · exact cancelOne_enabled _ index node

theorem awaitClosed_enabled {cs : ChannelState} (hcs : c.element s.topic s.node = some cs)
    (i : ℕ) : ∃ wake d, c.awaitClosed i s wake = some d := by
  unfold awaitClosed
  split_ifs with hlatch
  · obtain ⟨wake, d, hd⟩ := releaseChannel_enabled hcs
    exact ⟨wake, d.setSub i { s with pc := .left }, by rw [hd]; rfl⟩
  · exact ⟨none, c, if_pos rfl⟩

theorem element_congr {index : ChannelMarketPair} {node : ℕ}
    (h : d.channelStates = c.channelStates) : d.element index node = c.element index node := by
  rw [element, element, h]

theorem closeMachine_enabled {cs : ChannelState} (hcs : c.element s.topic s.node = some cs)
    (i : ℕ) : ∃ wake d, c.closeMachine i s wake = some d := by
  unfold closeMachine
  refine @awaitClosed_enabled _ _ cs ?_ i
  rw [element_congr (performAll_undisturbed _ _).channelStates]
  exact hcs

theorem awaitStop_enabled {cs : ChannelState} (hcs : c.element s.topic s.node = some cs)
    (i : ℕ) : ∃ wake d, c.awaitStop i s wake = some d := by
  unfold awaitStop
  split_ifs with hlatch
  · exact closeMachine_enabled hcs i
  · exact ⟨none, c, if_pos rfl⟩

theorem acquire_enabled {cs : ChannelState} (hcs : c.element s.topic s.node = some cs) (i : ℕ) :
    ∃ wake d, c.acquire i s wake = some d := by
  obtain ⟨hlookup, hnode⟩ := element_eq_some hcs
  have htaken : (c.taken i s cs).element s.topic s.node =
      some { cs with acquired := true, onEvent := some i } := by
    simp [taken, setSub, setChannel, element, hnode]
  simp only [acquire, hcs, Option.bind_eq_bind, Option.bind_some]
  split_ifs with hup
  · refine @awaitStop_enabled _ _ { cs with acquired := true, onEvent := some i } ?_ i
    rw [element_congr (handle_undisturbed _ i .connectionUp).channelStates]
    exact htaken
  · exact awaitStop_enabled htaken i

theorem element_locateChannel (c : Connector) (index : ChannelMarketPair) :
    (c.locateChannel index).2.element index (c.locateChannel index).1.node =
      some (c.locateChannel index).1 := by
  unfold locateChannel
  split
  · simp [setChannel, element]
  · simp [setChannel, element]

theorem enter_enabled (c : Connector) (i : ℕ) (s : Subscription) :
    ∃ wake d, c.enter i s wake = some d := by
  simp only [enter]
  split_ifs with hacquired
  · exact ⟨none, _, if_pos rfl⟩
  · exact ⟨none, _, if_pos rfl⟩
  · exact acquire_enabled (s := { s with node := (c.locateChannel s.topic).1.node })
      (element_locateChannel c s.topic) i

/-- A subscription that is ready is resumed, whatever its release wakes. -/
theorem resume_enabled (hi : c.subs[i]? = some s) (hready : s.ready = true)
    (hentry : s.pc.usesChannel = true → ∃ cs, c.element s.topic s.node = some cs) :
    ∃ wake d, c.resume i wake = some d := by
  rw [Subscription.ready] at hready
  simp only [resume, hi, Option.bind_eq_bind, Option.bind_some]
  rcases hpc : s.pc with _ | (_ | _ | _ | _) | _ | _ | _
  · exact enter_enabled c i s
  · simp [hpc] at hready
  · simp [hpc] at hready
  · exact ⟨none, _, if_pos rfl⟩
  · obtain ⟨cs, hcs⟩ := hentry (by rw [hpc]; rfl)
    exact acquire_enabled hcs i
  · obtain ⟨cs, hcs⟩ := hentry (by rw [hpc]; rfl)
    have hlatch : s.stopLatch = true := by rwa [hpc] at hready
    simp only [hlatch, if_true]
    exact closeMachine_enabled hcs i
  · obtain ⟨cs, hcs⟩ := hentry (by rw [hpc]; rfl)
    have hlatch : s.sm.closedLatch = true := by rwa [hpc] at hready
    simp only [hlatch, if_true]
    exact awaitClosed_enabled hcs i
  · simp [hpc] at hready

end Connector

/-! ## What it costs -/

/-- How far `run` is from its end. -/
def Pc.rank : Pc → ℕ
  | spawned => 5
  | waiting .suspended | waiting .stopping => 4
  | waiting .woken | waiting .stopped => 3
  | awaitingStop => 2
  | awaitingClosed => 1
  | left => 0

theorem Pc.rank_wake_le (pc : Pc) : pc.wake.rank ≤ pc.rank := by
  rcases pc with _ | (_ | _ | _ | _) | _ | _ | _ <;> simp [wake, rank]

namespace StateMachine

/-- A machine sends one request at a time. -/
theorem frames_feed_le_one (sm : StateMachine) (input : Input) :
    ((sm.feed input).2.filterMap Effect.frame?).length ≤ 1 := by
  have hmove := sm.feed_move input
  generalize (sm.feed input).1 = next, (sm.feed input).2 = effects at hmove ⊢
  cases hmove with
  | ignored hquiet hdown hup => simp [filterMap_frame?_of_isQuiet hquiet]
  | up hstate he => exact Nat.le_refl 1
  | _ => simp [Effect.frame?]

end StateMachine

namespace Connector

variable {c d : Connector} {i : ℕ} {s : Subscription} {wake : Option ℕ}

def stages (c : Connector) : ℕ := (c.subs.map (·.pc.rank)).sum

/-- What the subscriptions have before them, and what they have sent and owe. -/
def toll (c : Connector) : ℕ := 16 * c.stages + 8 * c.owing + 3 * c.writeQueue.length

theorem stages_of_pcs (h : d.subs.map (·.pc) = c.subs.map (·.pc)) : d.stages = c.stages := by
  have hmap (c : Connector) : c.subs.map (·.pc.rank) = (c.subs.map (·.pc)).map Pc.rank := by
    rw [List.map_map]
    rfl
  rw [stages, stages, hmap, hmap, h]

theorem toll_of_eq (hsubs : d.subs = c.subs) (hqueue : d.writeQueue = c.writeQueue) :
    d.toll = c.toll := by
  rw [toll, toll, stages, stages, owing, owing, hsubs, hqueue]

/-- A subscription comes from one place to another with the machine that it has. -/
theorem toll_move (hi : c.subs[i]? = some s) {t : Subscription} (hsm : t.sm = s.sm) :
    (c.setSub i t).toll + 16 * s.pc.rank = c.toll + 16 * t.pc.rank := by
  have hstages := Collections.sum_map_set_add (f := fun s : Subscription ↦ s.pc.rank) hi t
  have howing := Collections.countP_set_add (p := fun s : Subscription ↦ s.sm.owes) hi t
  simp only [hsm] at howing
  simp only [toll, stages, owing, setSub]
  omega

/-- The machine of a subscription is fed on the way, and makes its calls. -/
theorem toll_feed (hi : c.subs[i]? = some s) (t : Subscription) {effects : List Effect}
    (hframes : (effects.filterMap Effect.frame?).length ≤ 1) :
    ((c.setSub i t).performAll effects).toll + 16 * s.pc.rank ≤
      c.toll + 16 * t.pc.rank + 11 := by
  have hstages := Collections.sum_map_set_add (f := fun s : Subscription ↦ s.pc.rank) hi t
  have howing := Collections.countP_set_add (p := fun s : Subscription ↦ s.sm.owes) hi t
  -- at worst the machine has sent one request and owes another
  have hone : (if t.sm.owes = true then 1 else 0) ≤ 1 := by split_ifs <;> omega
  simp only [toll, stages, owing, performAll_subs, writeQueue_performAll, setSub,
    List.length_append]
  omega

theorem handle_toll (hi : c.subs[i]? = some s) (e : ChannelEvent) :
    (c.handle i e).toll ≤ c.toll + 11 := by
  have hframes : ((s.sm.processEvent e).2.filterMap Effect.frame?).length ≤ 1 :=
    s.sm.frames_feed_le_one (.event e)
  have hfeed := toll_feed hi (s.given e) hframes
  have hpc : (s.given e).pc = s.pc := rfl
  rw [handle_of_sub hi]
  rw [hpc] at hfeed
  omega

theorem cancelOne_toll {index : ChannelMarketPair} {node : ℕ}
    (h : c.cancelOne index node wake = some d) : d.toll ≤ c.toll := by
  rcases cancelOne_cases h with ⟨-, rfl, -⟩ | ⟨j, s, -, hs, -, rfl⟩
  · exact le_rfl
  · have hmove := toll_move hs (t := { s with pc := s.pc.wake }) rfl
    have hrank := s.pc.rank_wake_le
    dsimp only at hmove
    omega

theorem releaseChannel_toll {index : ChannelMarketPair} {node : ℕ}
    (h : c.releaseChannel index node wake = some d) : d.toll ≤ c.toll := by
  obtain ⟨cs, -, ⟨-, -, rfl⟩ | ⟨-, hcancel⟩⟩ := releaseChannel_cases h
  · exact (toll_of_eq rfl rfl).le
  · exact (cancelOne_toll hcancel).trans (toll_of_eq rfl rfl).le

theorem awaitClosed_toll (hi : c.subs[i]? = some s) (hpc : s.pc = .awaitingClosed)
    (h : c.awaitClosed i s wake = some d) :
    d.toll ≤ c.toll ∧ (s.sm.closedLatch = true → d.toll + 5 ≤ c.toll) := by
  unfold awaitClosed at h
  split_ifs at h with hlatch
  · obtain ⟨e, he, h⟩ := Option.bind_eq_some_iff.mp h
    obtain rfl := Option.some_inj.mp h
    have hself := releaseChannel_getElem?_self hi (by rw [hpc]; rfl) he
    have hmove := toll_move hself (t := { s with pc := .left }) rfl
    have hrelease := releaseChannel_toll he
    simp only [hpc, Pc.rank] at hmove
    exact ⟨by omega, fun _ ↦ by omega⟩
  · obtain rfl := Option.some_inj.mp h
    exact ⟨le_rfl, fun h ↦ absurd h hlatch⟩

theorem closeMachine_toll (hi : c.subs[i]? = some s) (hpc : s.pc = .awaitingStop)
    (h : c.closeMachine i s wake = some d) : d.toll + 5 ≤ c.toll := by
  have hframes : (s.sm.close.2.filterMap Effect.frame?).length ≤ 1 :=
    s.sm.frames_feed_le_one .close
  have hclose := toll_feed hi { s with sm := s.sm.close.1, pc := .awaitingClosed } hframes
  have hrest := (awaitClosed_toll (s := { s with sm := s.sm.close.1, pc := .awaitingClosed })
    (by rw [performAll_subs]; exact getElem?_setSub hi _) rfl h).1
  simp only [hpc, Pc.rank] at hclose
  omega

theorem awaitStop_toll (hi : c.subs[i]? = some s) (hpc : s.pc = .awaitingStop)
    (h : c.awaitStop i s wake = some d) : d.toll ≤ c.toll := by
  rcases awaitStop_cases h with rfl | hclose
  · exact le_rfl
  · exact Nat.le_of_add_right_le (closeMachine_toll hi hpc hclose)

theorem acquire_toll (hi : c.subs[i]? = some s) (hrank : 3 ≤ s.pc.rank) {node : ℕ}
    (h : c.acquire i { s with node } wake = some d) : d.toll + 5 ≤ c.toll := by
  obtain ⟨cs, -, hstop⟩ := acquire_cases h
  have htaken : (c.taken i { s with node } cs).toll + 16 * s.pc.rank = c.toll + 32 :=
    toll_move (c := c.setChannel s.topic _) hi rfl
  have hi' := getElem?_taken hi { s with node } cs
  rcases hstop with ⟨-, hstop⟩ | ⟨-, hstop⟩
  · have hup := handle_toll hi' .connectionUp
    have hrest := awaitStop_toll (by
      rw [handle_of_sub hi', performAll_subs]
      exact getElem?_setSub hi' _) rfl hstop
    omega
  · have hrest := awaitStop_toll hi' rfl hstop
    omega

theorem enter_toll (hi : c.subs[i]? = some s) (hpc : s.pc = .spawned)
    (h : c.enter i s wake = some d) : d.toll + 5 ≤ c.toll := by
  have hlocate : (c.locateChannel s.topic).2.toll = c.toll := by
    refine toll_of_eq (subs_locateChannel c s.topic) ?_
    unfold locateChannel
    split <;> rfl
  have hi' : (c.locateChannel s.topic).2.subs[i]? = some s := by rw [subs_locateChannel, hi]
  have hrank : s.pc.rank = 5 := by rw [hpc]; rfl
  have hwaits {t : Subscription} (hsm : t.sm = s.sm) (ht : t.pc.rank = 4) :
      ((c.locateChannel s.topic).2.setSub i t).toll + 5 ≤ c.toll := by
    have hmove := toll_move hi' hsm
    omega
  simp only [enter] at h
  split_ifs at h
  · exact Option.some_inj.mp h ▸ hwaits rfl rfl
  · exact Option.some_inj.mp h ▸ hwaits rfl rfl
  · exact (acquire_toll hi' (by omega) h).trans hlocate.le

/-- **Each step of a subscription brings it closer to its end**, at a price that is smaller. -/
theorem resume_toll (h : c.resume i wake = some d) : d.toll + 5 ≤ c.toll := by
  obtain ⟨s, hi, hcases⟩ := resume_cases h
  rcases hcases with ⟨hpc, h'⟩ | ⟨hpc, rfl⟩ | ⟨hpc, h'⟩ | ⟨hpc, h'⟩ | ⟨hpc, h'⟩
  · exact enter_toll hi hpc h'
  · have hmove := toll_move hi (t := { s with pc := .left }) rfl
    simp only [hpc, Pc.rank] at hmove
    omega
  · exact @acquire_toll c d i s wake hi (by rw [hpc]; decide) s.node h'
  · exact closeMachine_toll hi hpc h'
  · refine (awaitClosed_toll hi hpc h').2 ?_
    -- it went on because its latch was set
    by_contra hlatch
    simp [resume, hi, hpc, hlatch] at h

theorem settle_toll (h : c.settle i = some d) : d.toll + 5 ≤ c.toll := by
  obtain ⟨s, hi, hpc, rfl⟩ := settle_cases h
  have hmove := toll_move hi (t := { s with pc := .waiting .stopped }) rfl
  simp only [hpc, Pc.rank] at hmove
  omega

end Connector

end Ftx

end BoostConnector
