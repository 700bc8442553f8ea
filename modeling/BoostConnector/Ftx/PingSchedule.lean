import BoostConnector.Ftx.PingPong
import Mathlib.Data.List.Chain

/-!
# The schedule of the keep-alive

The thresholds of `run_ping_pong` are fifteen seconds apart, whenever the executor gets to them, and
a pong that is in the buffer when a ping is queued is taken for its answer. So a venue that falls
silent is given up, but not at once: the pong that came last may answer a ping, a second one in the
same period answers the next, and the ping after that has to wait for its own threshold. That makes
three intervals at most, and what the executor is late (`run_noticesSilence`). The coroutine is not
cancelled here, as in the runs that this builds on.
-/

namespace BoostConnector

namespace Ftx

namespace PingPong

open Transition

/-- The coroutine goes on at most `late` after its threshold: time does not pass beyond that
before. -/
def Prompt (late : ℕ) : Action → PingPong → Prop
  | .elapse d, p => p.phase = .spawned ∨ p.phase = .ended ∨ p.now + d ≤ p.nextPing + late
  | _, _ => True

instance (late : ℕ) (a : Action) (p : PingPong) : Decidable (Prompt late a p) :=
  match a with
  | .elapse _ => inferInstanceAs (Decidable (p.phase = .spawned ∨ p.phase = .ended ∨ _))
  | .push _ | .resume => inferInstanceAs (Decidable True)

variable {p q : PingPong} {late : ℕ}

/-! ## What a period says about the one before -/

/-- Period `e` comes after `before`, and what it found in the buffer arrived then. -/
structure Succeeds (e before : Period) : Prop where
  deadline : e.deadline = before.deadline + interval
  stale : e.stale = true → before.arrivals ≠ []

/-- When the pings were queued and the pongs arrived. -/
structure Timed (p : PingPong) : Prop where
  chain : p.periods.IsChain Succeeds
  arrivals : ∀ e ∈ p.periods, ∀ t ∈ e.arrivals, e.deadline ≤ t + interval
  threshold : p.periods ≠ [] → p.nextPing ≤ p.now + interval
  buffer : p.pongEvent.isSome = true → ∀ current ∈ p.periods.head?, current.arrivals ≠ []

theorem Timed.setPhase (h : p.Timed) (phase : PingPhase) : Timed { p with phase } :=
  ⟨h.chain, h.arrivals, h.threshold, h.buffer⟩

theorem Timed.fire (h : p.Timed) : p.fire.Timed := by
  rcases fire_cases p with ⟨heq, -⟩ | ⟨-, -, heq⟩ | ⟨-, -, heq⟩
  · rwa [heq]
  · rw [heq]
    exact h.setPhase _
  · rw [heq]
    exact h.setPhase _

theorem Timed.elapse (h : p.Timed) (d : ℕ) : (p.elapse d).Timed :=
  Timed.fire ⟨h.chain, h.arrivals, fun hne ↦ by have := h.threshold hne; dsimp only; omega,
    h.buffer⟩

theorem Timed.pop (h : p.Timed) : p.pop.Timed :=
  Timed.fire ⟨h.chain, h.arrivals, h.threshold, by simp⟩

/-- A pong arrives within an interval before the deadline of the current period, or after it. -/
theorem Timed.push (h : p.Timed) (hgood : p.Good) (frame : Json.Value) : (p.push frame).Timed := by
  rcases hgood with ⟨hperiods, -⟩ | ⟨current, earlier, hcoherent, -⟩
  · constructor <;> simp [PingPong.push, hperiods]
  · have hperiods := hcoherent.periods
    obtain ⟨hchain, harrivals, hthreshold, -⟩ := h
    rw [hperiods] at hchain harrivals hthreshold
    have hpush : (p.push frame).periods =
        { current with arrivals := current.arrivals ++ [p.now] } :: earlier := by
      rw [PingPong.push, hperiods]
    refine ⟨?_, ?_, fun _ ↦ hthreshold (by simp), fun _ ↦ ?_⟩
    · rw [hpush]
      rcases earlier with _ | ⟨before, rest⟩
      · exact .singleton _
      · obtain ⟨hsucceeds, hrest⟩ := List.isChain_cons_cons.mp hchain
        exact List.isChain_cons_cons.mpr ⟨⟨hsucceeds.deadline, hsucceeds.stale⟩, hrest⟩
    · rw [hpush]
      intro e he t ht
      rcases List.mem_cons.mp he with rfl | he
      · rcases List.mem_append.mp ht with ht | ht
        · exact harrivals current List.mem_cons_self t ht
        · obtain rfl := List.mem_singleton.mp ht
          exact hcoherent.deadline ▸ hthreshold (by simp)
      · exact harrivals e (List.mem_cons_of_mem _ he) t ht
    · rw [hpush]
      rintro e he
      obtain rfl := Option.some_inj.mp he
      simp

/-- The ping at a threshold takes what is in the buffer. -/
theorem Timed.queuePing (h : p.Timed) (hdue : p.nextPing ≤ p.now)
    (hcurrent : ∀ current ∈ p.periods.head?, current.deadline = p.nextPing) (phase : PingPhase) :
    Timed { p.queuePing with pongEvent := none, phase } := by
  refine ⟨?_, fun e he ↦ ?_, fun _ ↦ Nat.add_le_add_right hdue interval, by simp⟩
  · have hchain := h.chain
    have hbuffer := h.buffer
    simp only [PingPong.queuePing]
    rcases hperiods : p.periods with _ | ⟨current, earlier⟩
    · exact .singleton _
    · rw [hperiods] at hchain hbuffer hcurrent
      refine List.isChain_cons_cons.mpr ⟨⟨?_, fun hstale ↦ hbuffer hstale current rfl⟩, hchain⟩
      exact congrArg (· + interval) (hcurrent current rfl).symm
  · rcases List.mem_cons.mp he with rfl | he
    · simp
    · exact h.arrivals e he

theorem Timed.ping (h : p.Timed) (hdue : p.nextPing ≤ p.now)
    (hcurrent : ∀ current ∈ p.periods.head?, current.deadline = p.nextPing) : p.ping.Timed := by
  rw [PingPong.ping]
  split_ifs with hbuffer
  · exact (h.queuePing hdue hcurrent (.resting false)).fire
  · have hnone : p.queuePing.pongEvent = none := Option.not_isSome_iff_eq_none.mp hbuffer
    have hqueue := h.queuePing hdue hcurrent (.racing none)
    rw [← hnone] at hqueue
    exact hqueue.fire

theorem Timed.resume (h : p.Timed) (hgood : p.Good) (hstep : p.resume = some q) : q.Timed := by
  -- once it runs, the threshold is the deadline of the current period
  have hcurrent : p.phase ≠ .spawned → ∀ current ∈ p.periods.head?,
      current.deadline = p.nextPing := by
    rintro hphase e he
    rcases hgood with ⟨-, hspawned⟩ | ⟨current, earlier, hcoherent, -⟩
    · exact absurd hspawned hphase
    · rw [hcoherent.periods] at he
      exact Option.some_inj.mp he ▸ hcoherent.deadline
  rw [PingPong.resume] at hstep
  split at hstep
  · next hphase =>
    obtain rfl := Option.some_inj.mp hstep
    have hnone : p.periods = [] := by
      rcases hgood with ⟨hperiods, -⟩ | ⟨current, earlier, hcoherent, -⟩
      · exact hperiods
      · have hagrees := hcoherent.phase
        rw [hphase] at hagrees
        exact hagrees.elim
    refine Timed.ping ⟨h.chain, h.arrivals, fun _ ↦ Nat.le_add_right _ _, h.buffer⟩ le_rfl ?_
    simp [hnone]
  · exact Option.some_inj.mp hstep ▸ h.pop
  · exact Option.some_inj.mp hstep ▸ h.setPhase .ended
  · next hphase =>
    obtain rfl := Option.some_inj.mp hstep
    refine h.ping ?_ (hcurrent (by simp [hphase]))
    rcases hgood with ⟨-, hspawned⟩ | ⟨current, earlier, hcoherent, -⟩
    · exact absurd (hphase.symm.trans hspawned) (by decide)
    · have hagrees := hcoherent.phase
      rw [hphase] at hagrees
      exact hagrees.2 rfl
  · exact absurd hstep (by simp)

/-! ## How late the coroutine is -/

/-- The coroutine is at most `late` behind its threshold. -/
def OnTime (late : ℕ) (p : PingPong) : Prop :=
  p.phase = .spawned ∨ p.phase = .ended ∨ p.now ≤ p.nextPing + late

theorem OnTime.fire (h : p.OnTime late) : p.fire.OnTime late := by
  rcases fire_cases p with ⟨heq, -⟩ | ⟨hdue, hphase, heq⟩ | ⟨hdue, hphase, heq⟩
  · rwa [heq]
  all_goals
    rw [OnTime, hphase] at h
    rw [heq]
    exact .inr (.inr (by simpa using h))

theorem onTime_ping (h : p.now ≤ p.nextPing + late) : p.ping.OnTime late := by
  have hqueue : p.now ≤ p.nextPing + interval + late := by omega
  rw [ping]
  split_ifs
  · exact OnTime.fire (.inr (.inr hqueue))
  · exact OnTime.fire (.inr (.inr hqueue))

theorem OnTime.step {a : Action} (h : p.OnTime late) (hprompt : Prompt late a p)
    (hstep : step a p = some q) : q.OnTime late := by
  rcases a with d | frame | _
  · exact Option.some_inj.mp hstep ▸ OnTime.fire hprompt
  · obtain rfl := Option.some_inj.mp hstep
    rcases h with hphase | hphase | hnow
    · exact .inl (by simp [PingPong.push, hphase])
    · exact .inr (.inl (by simp [PingPong.push, hphase]))
    · exact .inr (.inr hnow)
  · have hrunning (hspawned : p.phase ≠ .spawned) (hended : p.phase ≠ .ended) :
        p.now ≤ p.nextPing + late := (h.resolve_left hspawned).resolve_left hended
    rw [PingPong.step, PingPong.resume] at hstep
    split at hstep
    · exact Option.some_inj.mp hstep ▸ onTime_ping (Nat.le_add_right _ _)
    · next hphase =>
      have hnow := hrunning (by simp [hphase]) (by simp [hphase])
      exact Option.some_inj.mp hstep ▸ OnTime.fire (.inr (.inr hnow))
    · exact Option.some_inj.mp hstep ▸ .inr (.inl rfl)
    · next hphase =>
      exact Option.some_inj.mp hstep ▸ onTime_ping (hrunning (by simp [hphase]) (by simp [hphase]))
    · exact absurd hstep (by simp)

/-! ## Runs -/

/-- The first threshold was at `T` at the latest. -/
def StartedBy (T : ℕ) (p : PingPong) : Prop :=
  ∃ first ∈ p.periods.getLast?, first.deadline ≤ T + interval

instance (T : ℕ) (p : PingPong) : Decidable (StartedBy T p) :=
  inferInstanceAs (Decidable (∃ first ∈ p.periods.getLast?, _))

/-- No pong arrived after `T`. -/
def SilentAfter (T : ℕ) (p : PingPong) : Prop := ∀ e ∈ p.periods, ∀ t ∈ e.arrivals, t ≤ T

instance (T : ℕ) (p : PingPong) : Decidable (SilentAfter T p) :=
  inferInstanceAs (Decidable (∀ e ∈ p.periods, ∀ t ∈ e.arrivals, t ≤ T))

/-- The period in which the last pong arrived is not more than two periods ago. -/
theorem deadline_le_of_silent {T : ℕ} {current : Period} {earlier : List Period} (h : p.Timed)
    (hcoherent : p.Coherent current earlier) (hstarted : StartedBy T p)
    (hsilent : SilentAfter T p) : current.deadline ≤ T + 3 * interval := by
  obtain ⟨first, hfirst, hdeadline⟩ := hstarted
  obtain ⟨hperiods, -, hearlier, -⟩ := hcoherent
  obtain ⟨hchain, harrivals, -, -⟩ := h
  rw [SilentAfter, hperiods] at hsilent
  rw [hperiods] at hchain harrivals hfirst
  -- a pong arrives at most an interval before the deadline of its period
  have harrived {e : Period} {t : ℕ} (he : e ∈ current :: earlier) (ht : t ∈ e.arrivals) :
      e.deadline ≤ T + interval :=
    (harrivals e he t ht).trans (Nat.add_le_add_right (hsilent e he t ht) interval)
  rcases earlier with _ | ⟨before, rest⟩
  · obtain rfl : current = first := Option.some_inj.mp hfirst
    omega
  · obtain ⟨hcurrent, hchain⟩ := List.isChain_cons_cons.mp hchain
    have hstep := hcurrent.deadline
    obtain ⟨-, hstale | ⟨t, ht, -⟩⟩ := hearlier before List.mem_cons_self
    · -- a pong that was left over from the period before this one
      rcases rest with _ | ⟨third, rest⟩
      · obtain rfl : before = first := Option.some_inj.mp hfirst
        omega
      · have hbefore := (List.isChain_cons_cons.mp hchain).1
        obtain ⟨t, ht⟩ := List.exists_mem_of_ne_nil _ (hbefore.stale hstale)
        have hthird := harrived (by simp) ht
        have hstep' := hbefore.deadline
        omega
    · have hbefore := harrived (by simp) ht
      omega

/-- **The keep-alive notices silence, and nothing else ends it.** The thresholds are an interval
apart; where it has ended, the last ping was waited for through a whole interval, with an empty
buffer; and if no pong came after `T` it has ended three intervals later. -/
theorem run_noticesSilence {actions : List Action} (hrun : run actions = some p)
    (hprompt : Along step (Prompt late) actions {}) :
    p.periods.IsChain (fun e before ↦ e.deadline = before.deadline + interval) ∧
      (p.phase = .ended → ∃ current ∈ p.periods.head?, current.stale = false ∧
        ¬current.Answered ∧ current.deadline ≤ p.now) ∧
      ∀ T, StartedBy T p → SilentAfter T p → T + 3 * interval + late < p.now →
        p.phase = .ended := by
  have hinvariant : p.Good ∧ p.Timed ∧ p.OnTime late := by
    refine exec_invariant_of_along (Prompt late) (fun p ↦ p.Good ∧ p.Timed ∧ p.OnTime late)
      ?_ ?_ hprompt hrun
    · rintro a p q ⟨hgood, htimed, hontime⟩ ha hstep
      refine ⟨good_of_step hgood hstep, ?_, hontime.step ha hstep⟩
      rcases a with d | frame | _
      · exact Option.some_inj.mp hstep ▸ htimed.elapse d
      · exact Option.some_inj.mp hstep ▸ htimed.push hgood frame
      · exact htimed.resume hgood hstep
    · exact ⟨.inl ⟨rfl, rfl⟩, ⟨.nil, by simp, by simp, by simp⟩, .inl rfl⟩
  obtain ⟨hgood, htimed, hontime⟩ := hinvariant
  refine ⟨htimed.chain.imp fun e before h ↦ h.deadline, fun hended ↦ ?_,
    fun T hstarted hsilent hnow ↦ ?_⟩
  · rcases hgood with ⟨-, hspawned⟩ | ⟨current, earlier, hcoherent, -⟩
    · exact absurd (hended.symm.trans hspawned) (by decide)
    · obtain ⟨hstale, hanswered, hover⟩ : current.stale = false ∧ ¬current.Answered ∧ _ :=
        hended ▸ hcoherent.phase
      refine ⟨current, ?_, hstale, hanswered, hcoherent.deadline ▸ hover⟩
      rw [hcoherent.periods]
      rfl
  · rcases hgood with ⟨hperiods, -⟩ | ⟨current, earlier, hcoherent, -⟩
    · obtain ⟨first, hfirst, -⟩ := hstarted
      simp [hperiods] at hfirst
    · have hdeadline := deadline_le_of_silent htimed hcoherent hstarted hsilent
      have hnext := hcoherent.deadline
      rcases hontime with hspawned | hended | hlate
      · have hagrees := hcoherent.phase
        rw [hspawned] at hagrees
        exact hagrees.elim
      · exact hended
      · omega

/-- Two pongs come at once and nothing after them. The second one answers the second ping. -/
def twoPongs : List Action :=
  [.resume, .push .null, .resume, .push .null, .elapse interval, .resume, .elapse interval, .resume,
    .elapse interval, .resume, .elapse 1]

theorem run_noticesSilence_twoPongs : ∃ p, run twoPongs = some p ∧ p.phase = .ended := by
  have hrun : (run twoPongs).any (fun p ↦ decide
      (StartedBy 0 p ∧ SilentAfter 0 p ∧ 0 + 3 * interval + 0 < p.now)) = true := by
    decide +kernel
  have hprompt : Along step (Prompt 0) twoPongs {} := by decide +kernel
  simp only [Option.any_eq_true, decide_eq_true_eq] at hrun
  obtain ⟨p, hp, hstarted, hsilent, hnow⟩ := hrun
  exact ⟨p, hp, (run_noticesSilence hp hprompt).2.2 0 hstarted hsilent hnow⟩

end PingPong

end Ftx

end BoostConnector
