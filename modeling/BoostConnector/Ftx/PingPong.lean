import BoostConnector.Json.Value
import BoostConnector.Transition.Run
import Mathlib.Algebra.Group.Nat.Defs

/-!
# The keep-alive

`run_ping_pong` against the clock. Every fifteen seconds it queues a ping, waits for a pong or for
the end of the period, and in the first case rests until the period is over. Pongs come in through a
buffer of one element, which outlives the wait: what arrives while the coroutine rests answers the
next ping as soon as it is queued.

The waits complete at the moment of the arrival or at the deadline, and the coroutine is resumed in
a later step. A pong therefore counts if it arrives before the deadline, however late the executor
gets to it. What follows is exact: the loop goes on past a deadline without an answer just when a
ping found a pong in the buffer and got no other one (`run_answered_iff`).

The coroutine may also be cancelled, when another operand of its `&&` throws or the connector is
stopped. That is left out here: the runs are those of a connection up to then.
-/

namespace BoostConnector

namespace Ftx

/-- The operand of `pop() || timeout()` that completes first. -/
inductive Winner where
  | pong
  | timeout
  deriving DecidableEq, Repr

/-- The suspension points of `run_ping_pong`: `racing` is `pop() || timeout()`, and `resting` the
`timeout()` after a pong. -/
inductive PingPhase where
  | spawned
  | racing (won : Option Winner)
  | resting (expired : Bool)
  | ended
  deriving DecidableEq, Repr

/-- A ping and what arrived between it and the next one. -/
structure Period where
  deadline : ℕ
  /-- A pong was in the buffer when the ping was queued. -/
  stale : Bool
  /-- When pongs arrived. -/
  arrivals : List ℕ := []
  deriving Repr

/-- A pong arrived before the deadline. -/
def Period.Answered (p : Period) : Prop := ∃ t ∈ p.arrivals, t < p.deadline

theorem Period.answered_concat (p : Period) (t : ℕ) :
    ({ p with arrivals := p.arrivals ++ [t] } : Period).Answered ↔ p.Answered ∨ t < p.deadline := by
  simp [Period.Answered, or_and_right, exists_or]

theorem Period.not_answered_concat {p : Period} {t : ℕ} (h : ¬p.Answered) (ht : p.deadline ≤ t) :
    ¬({ p with arrivals := p.arrivals ++ [t] } : Period).Answered := by
  rw [p.answered_concat, not_or]
  exact ⟨h, not_lt.mpr ht⟩

instance (p : Period) : Decidable p.Answered := inferInstanceAs (Decidable (∃ t ∈ p.arrivals, _))

/-- `run_ping_pong` with its two arguments; `pongEvent` is the buffer of the second one. `periods`
is the history, the latest period first. -/
structure PingPong where
  now : ℕ := 0
  nextPing : ℕ := 0
  writeQueue : List Bytes := []
  pongEvent : Option Json.Value := none
  phase : PingPhase := .spawned
  periods : List Period := []

namespace PingPong

/-- Fifteen seconds on the steady clock. -/
def interval : ℕ := 15 * 10 ^ 9

variable (p : PingPong)

/-! ## The source -/

/-- The timer completes the wait of `timeout()` if it is due. -/
def fire : PingPong :=
  if p.nextPing ≤ p.now then
    match p.phase with
    | .racing none => { p with phase := .racing (some .timeout) }
    | .resting false => { p with phase := .resting true }
    | _ => p
  else p

def elapse (d : ℕ) : PingPong := { p with now := p.now + d }.fire

/-- `pong_event.push(frame)`, called by `read_state`. -/
def push (frame : Json.Value) : PingPong :=
  { p with
    pongEvent := some frame
    phase := if p.phase = .racing none then .racing (some .pong) else p.phase
    periods := match p.periods with
      | [] => []
      | current :: earlier => { current with arrivals := current.arrivals ++ [p.now] } :: earlier }

/-- `pop()` takes the pong and wins; `co_await timeout()`. -/
def pop : PingPong := { p with pongEvent := none, phase := .resting false }.fire

/-- The next threshold is computed, and the ping is queued. -/
def queuePing : PingPong :=
  { p with
    nextPing := p.nextPing + interval
    writeQueue := p.writeQueue ++ [ascii "\x7b\"op\": \"ping\"\x7d"]
    periods := ⟨p.nextPing + interval, p.pongEvent.isSome, []⟩ :: p.periods }

/-- The head of the loop, up to the next suspension point. -/
def ping : PingPong :=
  if p.pongEvent.isSome then p.queuePing.pop else { p.queuePing with phase := .racing none }.fire

/-- The coroutine goes on. The exception thrown at a timeout does not leave the function. -/
def resume : Option PingPong :=
  match p.phase with
  | .spawned => some { p with nextPing := p.now }.ping
  | .racing (some .pong) => some p.pop
  | .racing (some .timeout) => some { p with phase := .ended }
  | .resting true => some p.ping
  | _ => none

inductive Action where
  | elapse (d : ℕ)
  | push (frame : Json.Value)
  | resume

def step : Action → PingPong → Option PingPong
  | .elapse d, p => some (p.elapse d)
  | .push frame, p => some (p.push frame)
  | .resume, p => p.resume

def run (actions : List Action) : Option PingPong := Transition.exec step actions {}

/-! ## Answers -/

/-- Every ping that was followed by another one was answered in time, and one that was not answered
by its deadline has taken the timeout branch, or takes it as soon as the coroutine goes on. -/
def CountsFresh : Prop :=
  (∀ e ∈ p.periods.tail, e.Answered) ∧
    ∀ current ∈ p.periods.head?, current.deadline ≤ p.now → ¬current.Answered →
      p.phase = .racing (some .timeout) ∨ p.phase = .ended

instance : Decidable p.CountsFresh := inferInstanceAs (Decidable (_ ∧ _))

/-- A ping that found a pong in the buffer gets another one before its deadline. -/
def StaleAnswered : Prop :=
  ∀ e ∈ p.periods, e.stale = true → e.deadline ≤ p.now → e.Answered

/-- Pongs arrive only while `pop() || timeout()` is awaited. -/
def Listening : Action → PingPong → Prop
  | .push _, p => ∃ won, p.phase = .racing won
  | _, _ => True

/-! ## The invariant -/

/-- The current period agrees with the phase. -/
def PhaseAgrees (current : Period) : PingPhase → Prop
  | .spawned => False
  | .racing none => p.pongEvent = none ∧ current.stale = false ∧ current.arrivals = []
  | .racing (some .pong) => p.pongEvent.isSome ∧ current.stale = false ∧ current.Answered
  | .racing (some .timeout) | .ended =>
    current.stale = false ∧ ¬current.Answered ∧ p.nextPing ≤ p.now
  | .resting expired =>
    (current.stale = true ∨ current.Answered) ∧ (expired = true → p.nextPing ≤ p.now)

/-- What holds whenever the timer has not been looked at. -/
structure Coherent (current : Period) (earlier : List Period) : Prop where
  periods : p.periods = current :: earlier
  deadline : current.deadline = p.nextPing
  earlier : ∀ e ∈ earlier, e.deadline ≤ p.now ∧ (e.stale = true ∨ e.Answered)
  phase : p.PhaseAgrees current p.phase

/-- The timer is due and has not completed its wait. -/
def Due : Prop := p.nextPing ≤ p.now ∧ (p.phase = .racing none ∨ p.phase = .resting false)

def Good : Prop :=
  (p.periods = [] ∧ p.phase = .spawned) ∨ ∃ current earlier, p.Coherent current earlier ∧ ¬p.Due

variable {p}

theorem fire_cases (p : PingPong) :
    p.fire = p ∧ ¬p.Due ∨
      (p.nextPing ≤ p.now ∧ p.phase = .racing none ∧
        p.fire = { p with phase := .racing (some .timeout) }) ∨
      p.nextPing ≤ p.now ∧ p.phase = .resting false ∧
        p.fire = { p with phase := .resting true } := by
  rw [fire]
  by_cases hdue : p.nextPing ≤ p.now
  · rw [if_pos hdue]
    split
    · next hphase => exact .inr (.inl ⟨hdue, hphase, rfl⟩)
    · next hphase => exact .inr (.inr ⟨hdue, hphase, rfl⟩)
    · next hracing hresting =>
      refine .inl ⟨rfl, ?_⟩
      rintro ⟨-, hphase | hphase⟩
      · exact hracing hphase
      · exact hresting hphase
  · rw [if_neg hdue]
    exact .inl ⟨rfl, fun h ↦ hdue h.1⟩

theorem good_fire {current : Period} {earlier : List Period} (h : p.Coherent current earlier) :
    p.fire.Good := by
  obtain ⟨hperiods, hdeadline, hearlier, hphase⟩ := h
  right
  refine ⟨current, earlier, ?_⟩
  rcases fire_cases p with ⟨heq, hnot⟩ | ⟨hdue, hracing, heq⟩ | ⟨hdue, hresting, heq⟩
  · rw [heq]
    exact ⟨⟨hperiods, hdeadline, hearlier, hphase⟩, hnot⟩
  · rw [hracing] at hphase
    obtain ⟨-, hstale, harrivals⟩ := hphase
    have hanswered : ¬current.Answered := by simp [Period.Answered, harrivals]
    rw [heq]
    exact ⟨⟨hperiods, hdeadline, hearlier, hstale, hanswered, hdue⟩, by simp [Due]⟩
  · rw [hresting] at hphase
    rw [heq]
    exact ⟨⟨hperiods, hdeadline, hearlier, hphase.1, fun _ ↦ hdue⟩, by simp [Due]⟩

theorem phaseAgrees_later {current : Period} {phase : PingPhase}
    (h : p.PhaseAgrees current phase) (d : ℕ) :
    ({ p with now := p.now + d } : PingPong).PhaseAgrees current phase := by
  cases phase with
  | spawned => exact h
  | racing won =>
    cases won with
    | none => exact h
    | some winner =>
      cases winner with
      | pong => exact h
      | timeout => exact ⟨h.1, h.2.1, h.2.2.trans (Nat.le_add_right _ _)⟩
  | resting expired => exact ⟨h.1, fun hexpired ↦ (h.2 hexpired).trans (Nat.le_add_right _ _)⟩
  | ended => exact ⟨h.1, h.2.1, h.2.2.trans (Nat.le_add_right _ _)⟩

theorem good_elapse (h : p.Good) (d : ℕ) : (p.elapse d).Good := by
  rcases h with ⟨hperiods, hphase⟩ | ⟨current, earlier, h, -⟩
  · left
    rw [elapse, fire]
    simp [hperiods, hphase]
  · obtain ⟨hperiods, hdeadline, hearlier, hphase⟩ := h
    have hlater : ({ p with now := p.now + d } : PingPong).Coherent current earlier := by
      refine ⟨hperiods, hdeadline, fun e he ↦ ?_, phaseAgrees_later hphase d⟩
      exact ⟨(hearlier e he).1.trans (Nat.le_add_right _ _), (hearlier e he).2⟩
    exact good_fire hlater

/-- An arrival answers the current ping just if it is in time. -/
theorem good_push (h : p.Good) (frame : Json.Value) : (p.push frame).Good := by
  rcases h with ⟨hperiods, hphase⟩ | ⟨current, earlier, h, hdue⟩
  · left
    simp [push, hperiods, hphase]
  · obtain ⟨hperiods, hdeadline, hearlier, hphase⟩ := h
    have hanswered := current.answered_concat p.now
    have hmissed (hnot : ¬current.Answered) (hlate : p.nextPing ≤ p.now) :=
      Period.not_answered_concat hnot (hdeadline ▸ hlate)
    right
    refine ⟨{ current with arrivals := current.arrivals ++ [p.now] }, earlier,
      ⟨?_, hdeadline, hearlier, ?_⟩, ?_⟩
    · rw [push, hperiods]
    · rw [push]
      cases hp : p.phase with
      | spawned =>
        rw [hp] at hphase
        exact absurd hphase id
      | racing won =>
        rw [hp] at hphase
        cases won with
        | none =>
          have hearly : p.now < current.deadline := by
            rw [hdeadline]
            by_contra hlate
            exact hdue ⟨not_lt.mp hlate, .inl hp⟩
          exact ⟨rfl, hphase.2.1, hanswered.mpr (.inr hearly)⟩
        | some winner =>
          cases winner with
          | pong => exact ⟨rfl, hphase.2.1, hanswered.mpr (.inl hphase.2.2)⟩
          | timeout => exact ⟨hphase.1, hmissed hphase.2.1 hphase.2.2, hphase.2.2⟩
      | resting expired =>
        rw [hp] at hphase
        exact ⟨hphase.1.imp_right fun hin ↦ hanswered.mpr (.inl hin), hphase.2⟩
      | ended =>
        rw [hp] at hphase
        exact ⟨hphase.1, hmissed hphase.2.1 hphase.2.2, hphase.2.2⟩
    · rintro ⟨hlate, hnext⟩
      apply hdue
      refine ⟨hlate, ?_⟩
      rw [push] at hnext
      by_cases hnone : p.phase = .racing none
      · exact .inl hnone
      · simpa [hnone] using hnext

theorem good_pop {current : Period} {earlier : List Period} (h : p.Coherent current earlier)
    (hcurrent : current.stale = true ∨ current.Answered) : p.pop.Good :=
  good_fire ⟨h.periods, h.deadline, h.earlier, hcurrent, by simp⟩

/-- A ping may be queued once every earlier one is over. -/
theorem good_ping
    (hearlier : ∀ e ∈ p.periods, e.deadline ≤ p.now ∧ (e.stale = true ∨ e.Answered)) :
    p.ping.Good := by
  rw [ping]
  split_ifs with hbuffer
  · exact good_fire ⟨rfl, rfl, hearlier, .inl hbuffer, by simp⟩
  · have hnone : p.pongEvent = none := Option.not_isSome_iff_eq_none.mp hbuffer
    have hstale : p.pongEvent.isSome = false := by rw [hnone]; rfl
    exact good_fire ⟨rfl, rfl, hearlier, hnone, hstale, rfl⟩

theorem good_of_resume {q : PingPong} (h : p.Good) (hstep : p.resume = some q) : q.Good := by
  rcases h with ⟨hperiods, hphase⟩ | ⟨current, earlier, h, hdue⟩
  · rw [resume, hphase] at hstep
    rw [← Option.some_inj.mp hstep]
    exact good_ping (by simp [hperiods])
  · have hphase := h.phase
    rw [resume] at hstep
    split at hstep
    · next hp =>
      rw [hp] at hphase
      exact absurd hphase id
    · next hp =>
      rw [hp] at hphase
      rw [← Option.some_inj.mp hstep]
      exact good_pop h (.inr hphase.2.2)
    · next hp =>
      rw [hp] at hphase
      rw [← Option.some_inj.mp hstep]
      exact .inr ⟨current, earlier, ⟨h.periods, h.deadline, h.earlier, hphase⟩, by simp [Due]⟩
    · next hp =>
      rw [hp] at hphase
      rw [← Option.some_inj.mp hstep]
      apply good_ping
      rw [h.periods]
      intro e he
      rcases List.mem_cons.mp he with rfl | he
      · exact ⟨h.deadline ▸ hphase.2 rfl, hphase.1⟩
      · exact h.earlier e he
    · exact absurd hstep (by simp)

theorem good_of_step {action : Action} {q : PingPong} (h : p.Good)
    (hstep : step action p = some q) : q.Good := by
  cases action with
  | elapse d => exact Option.some_inj.mp hstep ▸ good_elapse h d
  | push frame => exact Option.some_inj.mp hstep ▸ good_push h frame
  | resume => exact good_of_resume h hstep

/-! ## Runs -/

theorem countsFresh_iff (h : p.Good) : p.CountsFresh ↔ p.StaleAnswered := by
  rcases h with ⟨hperiods, -⟩ | ⟨current, earlier, h, hdue⟩
  · simp [CountsFresh, StaleAnswered, hperiods]
  · obtain ⟨hperiods, hdeadline, hearlier, hphase⟩ := h
    rw [CountsFresh, StaleAnswered, hperiods, List.forall_mem_cons, List.tail_cons,
      List.head?_cons]
    constructor
    · rintro ⟨hall, hcurrent⟩
      have hcurrent := hcurrent current rfl
      refine ⟨fun hstale hlate ↦ ?_, fun e he _ _ ↦ hall e he⟩
      by_contra hnot
      rcases hcurrent hlate hnot with hp | hp
      · rw [hp] at hphase
        exact absurd hstale (by simp [hphase.1])
      · rw [hp] at hphase
        exact absurd hstale (by simp [hphase.1])
    · rintro ⟨hcurrent, hall⟩
      refine ⟨fun e he ↦ ?_, fun e he hlate hnot ↦ ?_⟩
      · obtain ⟨hlate, hstale | hin⟩ := hearlier e he
        · exact hall e he hstale hlate
        · exact hin
      · obtain rfl := Option.some_inj.mp he
        cases hp : p.phase with
        | spawned =>
          rw [hp] at hphase
          exact absurd hphase id
        | racing won =>
          rw [hp] at hphase
          cases won with
          | none => exact absurd ⟨hdeadline ▸ hlate, .inl hp⟩ hdue
          | some winner =>
            cases winner with
            | pong => exact absurd hphase.2.2 hnot
            | timeout => exact .inl rfl
        | resting expired =>
          rw [hp] at hphase
          rcases hphase.1 with hstale | hin
          · exact absurd (hcurrent hstale hlate) hnot
          · exact absurd hin hnot
        | ended => exact .inr rfl

/-- No ping has found a pong in the buffer, nor will the next one. -/
def NoneStale (p : PingPong) : Prop :=
  (∀ e ∈ p.periods, e.stale = false) ∧
    (p.pongEvent.isSome → (∃ won, p.phase = .racing won) ∨ p.phase = .ended)

theorem noneStale_fire (h : p.NoneStale) : p.fire.NoneStale := by
  rcases fire_cases p with ⟨heq, -⟩ | ⟨-, -, heq⟩ | ⟨-, hresting, heq⟩
  · rwa [heq]
  · rw [heq]
    exact ⟨h.1, fun _ ↦ .inl ⟨_, rfl⟩⟩
  · rw [heq]
    refine ⟨h.1, fun hbuffer ↦ ?_⟩
    have hphase := h.2 hbuffer
    simp [hresting] at hphase

theorem noneStale_pop (h : ∀ e ∈ p.periods, e.stale = false) : p.pop.NoneStale :=
  noneStale_fire ⟨h, by simp⟩

theorem noneStale_ping (h : p.NoneStale) (hbuffer : p.pongEvent = none) : p.ping.NoneStale := by
  have hnone : ¬p.pongEvent.isSome = true := by simp [hbuffer]
  rw [ping, if_neg hnone]
  refine noneStale_fire ⟨?_, fun _ ↦ .inl ⟨none, rfl⟩⟩
  intro e he
  rcases List.mem_cons.mp he with rfl | he
  · simp [hbuffer]
  · exact h.1 e he

theorem noneStale_push (h : p.NoneStale) (frame : Json.Value)
    (hphase : ∃ won, p.phase = .racing won) : (p.push frame).NoneStale := by
  obtain ⟨won, hwon⟩ := hphase
  constructor
  · intro e he
    cases hperiods : p.periods with
    | nil => simp [push, hperiods] at he
    | cons current earlier =>
      have hall := hperiods ▸ h.1
      simp only [push, hperiods, List.mem_cons] at he
      rcases he with rfl | he
      · exact hall current List.mem_cons_self
      · exact hall e (List.mem_cons_of_mem _ he)
  · intro _
    left
    rw [push]
    by_cases hnone : p.phase = .racing none
    · exact ⟨_, if_pos hnone⟩
    · exact ⟨won, (if_neg hnone).trans hwon⟩

theorem noneStale_of_step {action : Action} {q : PingPong} (h : p.NoneStale)
    (hlisten : Listening action p) (hstep : step action p = some q) : q.NoneStale := by
  cases action with
  | elapse d => exact Option.some_inj.mp hstep ▸ noneStale_fire h
  | push frame => exact Option.some_inj.mp hstep ▸ noneStale_push h frame hlisten
  | resume =>
    have hempty : p.phase = .spawned ∨ p.phase = .resting true → p.pongEvent = none := by
      intro hphase
      by_contra hbuffer
      have hracing := h.2 (Option.isSome_iff_ne_none.mpr hbuffer)
      rcases hphase with hp | hp <;> simp [hp] at hracing
    rw [step, resume] at hstep
    split at hstep
    · next hp =>
      rw [← Option.some_inj.mp hstep]
      exact noneStale_ping h (hempty (.inl hp))
    · rw [← Option.some_inj.mp hstep]
      exact noneStale_pop h.1
    · rw [← Option.some_inj.mp hstep]
      exact ⟨h.1, fun _ ↦ .inr rfl⟩
    · next hp =>
      rw [← Option.some_inj.mp hstep]
      exact noneStale_ping h (hempty (.inr hp))
    · exact absurd hstep (by simp)

/-- **When the keep-alive counts fresh pongs only.** In every state reached, pings that went
unanswered end the loop at their deadlines exactly if each ping that found a pong in the buffer got
another one in time; and so it is in a run in which pongs arrive only while they are awaited. -/
theorem run_answered_iff {actions : List Action} (hrun : run actions = some p) :
    (p.CountsFresh ↔ p.StaleAnswered) ∧
      (Transition.Along step Listening actions {} → p.CountsFresh) := by
  have hgood : p.Good :=
    Transition.exec_invariant Good good_of_step (.inl ⟨rfl, rfl⟩) hrun
  refine ⟨countsFresh_iff hgood, fun hlisten ↦ (countsFresh_iff hgood).mpr ?_⟩
  obtain ⟨hstale, -⟩ := Transition.exec_invariant_of_along Listening NoneStale noneStale_of_step
    ⟨by simp, by simp⟩ hlisten hrun
  intro e he htrue
  rw [hstale e he] at htrue
  exact absurd htrue (by simp)

/-- A ping that is answered, with a second pong after the first one, and what follows if the other
side is silent from then on: one more ping is counted as answered. -/
def duplicatePong : List Action :=
  [.resume, .elapse 10, .push .null, .resume, .elapse 10, .push .null, .elapse interval, .resume,
    .elapse interval, .resume]

theorem duplicatePong_counted : ∃ p, run duplicatePong = some p ∧ ¬p.CountsFresh := by
  have h : (run duplicatePong).any (fun p ↦ decide ¬p.CountsFresh) = true := by decide +kernel
  simpa only [Option.any_eq_true, decide_eq_true_eq] using h

theorem run_answered_once :
    ∃ p, run [.resume, .push .null, .resume, .elapse interval, .resume] = some p ∧
      p.CountsFresh := by
  have hlisten : Transition.Along step Listening
      [.resume, .push .null, .resume, .elapse interval, .resume] {} :=
    ⟨trivial, ⟨none, rfl⟩, trivial, trivial, trivial, trivial⟩
  obtain ⟨p, hp⟩ : ∃ p, run [.resume, .push .null, .resume, .elapse interval, .resume] = some p :=
    Option.isSome_iff_exists.mp (by decide +kernel)
  exact ⟨p, hp, (run_answered_iff hp).2 hlisten⟩

end PingPong

end Ftx

end BoostConnector
