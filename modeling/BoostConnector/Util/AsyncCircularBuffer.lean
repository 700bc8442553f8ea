import BoostConnector.Util.AsyncQueue

/-!
# The asynchronous circular buffer

`async_circular_buffer` is written twice. The primary template keeps its elements in a
`boost::circular_buffer`, which overwrites the oldest one when it is full; the specialisation to one
element keeps it in a `boost::optional`. The coroutine `pop` and the wake-ups are the same in both,
so the model has them once, over what the two do with their member `buffer_` (`BufferOps`), and the
functions of each template are these applied to its operations (`Primary`, `Single`).

A relation between two buffers that their operations keep makes every run of the one a run of the
other, with the same calls of `pop` suspended, woken and completed (`run_alike`). Between a circular
buffer of capacity one and an optional there is such a relation, and between one of any capacity and
a log of everything that was pushed (`PushLog`).

As in `async_queue`, a waiter that was cancelled looks into the buffer once more before it throws.
-/

namespace BoostConnector

namespace Util

open Collections Transition

/-! ## Buffers -/

/-- What is asked of the member `buffer_`. -/
structure BufferOps (β α : Type) where
  initial : β
  put : β → α → β
  /-- The front element and what remains without it. -/
  take : β → Option (α × β)
  clear : β → β

/-- `boost::circular_buffer`, front element first. -/
structure CircularBuffer (α : Type) (capacity : ℕ) where
  items : List α
  length_le : items.length ≤ capacity

namespace CircularBuffer

variable {α : Type} {capacity : ℕ}

/-- The items after `push_back`: a full buffer loses its front element, and one without capacity
takes nothing. -/
def pushedBack (capacity : ℕ) (items : List α) (item : α) : List α :=
  if capacity = 0 then items
  else if items.length = capacity then items.tail ++ [item]
  else items ++ [item]

theorem length_pushedBack_le {items : List α} (h : items.length ≤ capacity) (item : α) :
    (pushedBack capacity items item).length ≤ capacity := by
  rw [pushedBack]
  split_ifs with hzero hfull
  · exact h
  · rw [List.length_append, List.length_tail, List.length_singleton]
    omega
  · rw [List.length_append, List.length_singleton]
    omega

theorem length_pushedBack_le_succ (items : List α) (item : α) :
    (pushedBack capacity items item).length ≤ items.length + 1 := by
  rw [pushedBack]
  split_ifs
  · exact Nat.le_succ _
  · rw [List.length_append, List.length_tail, List.length_singleton]
    omega
  · exact Nat.le_of_eq List.length_append

def pushBack (buffer : CircularBuffer α capacity) (item : α) : CircularBuffer α capacity :=
  ⟨pushedBack capacity buffer.items item, length_pushedBack_le buffer.length_le item⟩

theorem length_rest_le {front : α} {rest : List α} (h : (front :: rest).length ≤ capacity) :
    rest.length ≤ capacity := Nat.le_of_succ_le h

/-- `front` and `pop_front`. -/
def popFront : CircularBuffer α capacity → Option (α × CircularBuffer α capacity)
  | ⟨[], _⟩ => none
  | ⟨front :: rest, h⟩ => some (front, ⟨rest, length_rest_le h⟩)

def empty : CircularBuffer α capacity := ⟨[], Nat.zero_le _⟩

/-- The primary template. -/
def ops : BufferOps (CircularBuffer α capacity) α where
  initial := empty
  put := pushBack
  take := popFront
  clear _ := empty

end CircularBuffer

/-- The specialisation: `emplace` replaces an element that is still there. -/
def optionalOps {α : Type} : BufferOps (Option α) α where
  initial := none
  put _ arg := some arg
  take buffer := buffer.map fun result ↦ (result, none)
  clear _ := none

/-! ## The asynchronous buffer -/

/-- `async_circular_buffer` with the calls of `pop` in the order in which they were made. -/
structure AsyncCircularBuffer (β α : Type) where
  buffer : β
  pops : List (Pop α) := []

namespace AsyncCircularBuffer

open AsyncQueue (Action)

variable {α β γ : Type} (ops : BufferOps β α) (b : AsyncCircularBuffer β α)

/-- `cv_.cancel_one()` completes one outstanding wait if there is one. -/
def cancelOne (pops : List (Pop α)) : Option ℕ → Option (List (Pop α))
  | some i => do
    let p ← pops[i]?
    if p.isSuspended then some (pops.set i (.woken false)) else none
  | none => if pops.any Pop.isSuspended then none else some pops

def push (arg : α) (wake : Option ℕ) : Option (AsyncCircularBuffer β α) := do
  let pops ← cancelOne b.pops wake
  some { buffer := ops.put b.buffer arg, pops }

/-- The loop of `pop` up to its next suspension point. The `co_await` of a cancelled coroutine
throws. -/
def proceed (buffer : β) (cancelled : Bool) : Pop α × β :=
  match ops.take buffer with
  | none => (if cancelled then .threw else .suspended, buffer)
  | some (result, rest) => (.returned result, rest)

/-- A new call of `pop`. -/
def pop : AsyncCircularBuffer β α :=
  let (p, buffer) := proceed ops b.buffer false
  { buffer, pops := b.pops ++ [p] }

/-- A woken waiter is resumed. -/
def resume (i : ℕ) : Option (AsyncCircularBuffer β α) := do
  match ← b.pops[i]? with
  | .woken cancelled =>
    let (p, buffer) := proceed ops b.buffer cancelled
    some { buffer, pops := b.pops.set i p }
  | _ => none

/-- The coroutine in a `pop` that has not completed is cancelled. -/
def cancel (i : ℕ) : Option (AsyncCircularBuffer β α) := do
  match ← b.pops[i]? with
  | .suspended | .woken _ => some { b with pops := b.pops.set i (.woken true) }
  | _ => none

def clear : AsyncCircularBuffer β α := { b with buffer := ops.clear b.buffer }

def step : Action α → AsyncCircularBuffer β α → Option (AsyncCircularBuffer β α)
  | .push arg wake, b => b.push ops arg wake
  | .pop, b => some (b.pop ops)
  | .resume i, b => b.resume ops i
  | .cancel i, b => b.cancel i
  | .clear, b => some (b.clear ops)

def run (actions : List (Action α)) : Option (AsyncCircularBuffer β α) :=
  exec (step ops) actions { buffer := ops.initial }

/-! The primary template. -/

namespace Primary

variable {capacity : ℕ} (b : AsyncCircularBuffer (CircularBuffer α capacity) α)

def clear : AsyncCircularBuffer (CircularBuffer α capacity) α := b.clear CircularBuffer.ops

def pop : AsyncCircularBuffer (CircularBuffer α capacity) α := b.pop CircularBuffer.ops

/-- `pop` after a wait. -/
def resume (i : ℕ) : Option (AsyncCircularBuffer (CircularBuffer α capacity) α) :=
  b.resume CircularBuffer.ops i

def push (arg : α) (wake : Option ℕ) :
    Option (AsyncCircularBuffer (CircularBuffer α capacity) α) :=
  b.push CircularBuffer.ops arg wake

def step : Action α → AsyncCircularBuffer (CircularBuffer α capacity) α →
    Option (AsyncCircularBuffer (CircularBuffer α capacity) α)
  | .push arg wake, b => push b arg wake
  | .pop, b => some (pop b)
  | .resume i, b => resume b i
  | .cancel i, b => b.cancel i
  | .clear, b => some (clear b)

def run (capacity : ℕ) (actions : List (Action α)) :
    Option (AsyncCircularBuffer (CircularBuffer α capacity) α) :=
  exec step actions { buffer := CircularBuffer.empty }

theorem run_eq (capacity : ℕ) (actions : List (Action α)) :
    run capacity actions = AsyncCircularBuffer.run CircularBuffer.ops actions := by
  have hstep : (step : Action α → AsyncCircularBuffer (CircularBuffer α capacity) α → _)
      = AsyncCircularBuffer.step CircularBuffer.ops := by
    funext a b
    cases a <;> rfl
  rw [run, hstep]
  rfl

end Primary

/-! The specialisation to one element. -/

namespace Single

variable (b : AsyncCircularBuffer (Option α) α)

def clear : AsyncCircularBuffer (Option α) α := b.clear optionalOps

def pop : AsyncCircularBuffer (Option α) α := b.pop optionalOps

/-- `pop` after a wait. -/
def resume (i : ℕ) : Option (AsyncCircularBuffer (Option α) α) := b.resume optionalOps i

def push (arg : α) (wake : Option ℕ) : Option (AsyncCircularBuffer (Option α) α) :=
  b.push optionalOps arg wake

def step : Action α → AsyncCircularBuffer (Option α) α → Option (AsyncCircularBuffer (Option α) α)
  | .push arg wake, b => push b arg wake
  | .pop, b => some (pop b)
  | .resume i, b => resume b i
  | .cancel i, b => b.cancel i
  | .clear, b => some (clear b)

def run (actions : List (Action α)) : Option (AsyncCircularBuffer (Option α) α) :=
  exec step actions { buffer := none }

theorem run_eq (actions : List (Action α)) :
    run actions = AsyncCircularBuffer.run optionalOps actions := by
  have hstep : (step : Action α → AsyncCircularBuffer (Option α) α → _)
      = AsyncCircularBuffer.step optionalOps := by
    funext a b
    cases a <;> rfl
  rw [run, hstep]
  rfl

end Single

/-- Each constructor is one way a step can change the buffer. -/
inductive Move (ops : BufferOps β α) (b : AsyncCircularBuffer β α) :
    Action α → AsyncCircularBuffer β α → Prop
  | pushIdle {arg : α} (hidle : b.pops.any Pop.isSuspended = false) :
      Move ops b (.push arg none) { b with buffer := ops.put b.buffer arg }
  | pushWake {arg : α} {i : ℕ} (hi : b.pops[i]? = some .suspended) :
      Move ops b (.push arg (some i))
        { buffer := ops.put b.buffer arg, pops := b.pops.set i (.woken false) }
  | popTake {result : α} {rest : β} (htake : ops.take b.buffer = some (result, rest)) :
      Move ops b .pop { buffer := rest, pops := b.pops ++ [.returned result] }
  | popWait (htake : ops.take b.buffer = none) :
      Move ops b .pop { b with pops := b.pops ++ [.suspended] }
  | resumeTake {i : ℕ} {cancelled : Bool} {result : α} {rest : β}
      (hi : b.pops[i]? = some (.woken cancelled))
      (htake : ops.take b.buffer = some (result, rest)) :
      Move ops b (.resume i) { buffer := rest, pops := b.pops.set i (.returned result) }
  | resumeWait {i : ℕ} {p : Pop α} {cancelled : Bool} (hi : b.pops[i]? = some (.woken cancelled))
      (htake : ops.take b.buffer = none) :
      Move ops b (.resume i) { b with pops := b.pops.set i p }
  | cancel {i : ℕ} {p : Pop α} (hi : b.pops[i]? = some p) :
      Move ops b (.cancel i) { b with pops := b.pops.set i (.woken true) }
  | clear : Move ops b .clear { b with buffer := ops.clear b.buffer }

variable {ops b} {c : AsyncCircularBuffer β α} {a : Action α}

theorem proceed_of_none {buffer : β} (h : ops.take buffer = none) (cancelled : Bool) :
    proceed ops buffer cancelled = (if cancelled then .threw else .suspended, buffer) := by
  rw [proceed, h]

theorem proceed_of_some {buffer rest : β} {result : α} (h : ops.take buffer = some (result, rest))
    (cancelled : Bool) : proceed ops buffer cancelled = (.returned result, rest) := by
  rw [proceed, h]

/-- **What a step can do.** -/
theorem step_move (h : step ops a b = some c) : Move ops b a c := by
  cases a with
  | push arg wake =>
    obtain ⟨pops, hpops, h⟩ := Option.bind_eq_some_iff.mp h
    obtain rfl := Option.some_inj.mp h
    cases wake with
    | none =>
      rw [cancelOne] at hpops
      split_ifs at hpops with hidle
      obtain rfl := Option.some_inj.mp hpops
      exact .pushIdle (Bool.eq_false_iff.mpr hidle)
    | some i =>
      obtain ⟨p, hp, hpops⟩ := Option.bind_eq_some_iff.mp hpops
      split_ifs at hpops with hsuspended
      obtain rfl := Option.some_inj.mp hpops
      obtain rfl := AsyncQueue.eq_suspended hsuspended
      exact .pushWake hp
  | pop =>
    obtain rfl := Option.some_inj.mp h
    cases htake : ops.take b.buffer with
    | none =>
      rw [pop, proceed_of_none htake]
      exact .popWait htake
    | some taken =>
      rw [pop, proceed_of_some htake]
      exact .popTake htake
  | resume i =>
    obtain ⟨p, hp, h⟩ := Option.bind_eq_some_iff.mp h
    cases p with
    | woken cancelled =>
      dsimp only at h
      cases htake : ops.take b.buffer with
      | none =>
        rw [proceed_of_none htake, Option.some_inj] at h
        subst h
        exact .resumeWait hp htake
      | some taken =>
        rw [proceed_of_some htake, Option.some_inj] at h
        subst h
        exact .resumeTake hp htake
    | _ => exact absurd h (by simp)
  | cancel i =>
    obtain ⟨p, hp, h⟩ := Option.bind_eq_some_iff.mp h
    cases p with
    | suspended => exact Option.some_inj.mp h ▸ .cancel hp
    | woken cancelled => exact Option.some_inj.mp h ▸ .cancel hp
    | returned result => exact absurd h (by simp)
    | threw => exact absurd h (by simp)
  | clear => exact Option.some_inj.mp h ▸ .clear

/-! ## Alike buffers -/

/-- The operations keep `R`, and take the same elements from related buffers. -/
structure Simulates (ops : BufferOps β α) (ops' : BufferOps γ α) (R : β → γ → Prop) : Prop where
  initial : R ops.initial ops'.initial
  put : ∀ {b c} arg, R b c → R (ops.put b arg) (ops'.put c arg)
  take : ∀ {b c}, R b c →
    Option.Rel (fun x y ↦ x.1 = y.1 ∧ R x.2 y.2) (ops.take b) (ops'.take c)
  clear : ∀ {b c}, R b c → R (ops.clear b) (ops'.clear c)

/-- The same calls of `pop`, over related buffers. -/
structure Alike (R : β → γ → Prop) (b : AsyncCircularBuffer β α) (c : AsyncCircularBuffer γ α) :
    Prop where
  pops : b.pops = c.pops
  buffer : R b.buffer c.buffer

variable {ops' : BufferOps γ α} {R : β → γ → Prop}

theorem proceed_alike (hR : Simulates ops ops' R) {buffer : β} {buffer' : γ}
    (h : R buffer buffer') (cancelled : Bool) :
    (proceed ops buffer cancelled).1 = (proceed ops' buffer' cancelled).1 ∧
      R (proceed ops buffer cancelled).2 (proceed ops' buffer' cancelled).2 := by
  have htake := hR.take h
  rw [proceed, proceed]
  generalize ops.take buffer = x at htake ⊢
  generalize ops'.take buffer' = y at htake ⊢
  cases htake with
  | none => exact ⟨rfl, h⟩
  | @some x y hxy =>
    obtain ⟨hresult, hrest⟩ := hxy
    exact ⟨congrArg Pop.returned hresult, hrest⟩

/-- **One step for one step.** -/
theorem step_alike (hR : Simulates ops ops' R) (a : Action α) (b : AsyncCircularBuffer β α)
    (c : AsyncCircularBuffer γ α) (h : Alike R b c) :
    Option.Rel (Alike R) (step ops a b) (step ops' a c) := by
  obtain ⟨buffer, pops⟩ := b
  obtain ⟨buffer', pops'⟩ := c
  obtain ⟨hpops, hbuffer⟩ := h
  dsimp only at hpops hbuffer
  subst hpops
  cases a with
  | push arg wake =>
    rw [step, step, push, push]
    cases cancelOne pops wake with
    | none => exact .none
    | some woken => exact .some ⟨rfl, hR.put arg hbuffer⟩
  | pop =>
    obtain ⟨hp, hrest⟩ := proceed_alike hR hbuffer false
    exact .some ⟨congrArg (fun p ↦ pops ++ [p]) hp, hrest⟩
  | resume i =>
    rw [step, step, resume, resume]
    cases pops[i]? with
    | none => exact .none
    | some p =>
      cases p with
      | woken cancelled =>
        obtain ⟨hp, hrest⟩ := proceed_alike hR hbuffer cancelled
        exact .some ⟨congrArg (fun p ↦ pops.set i p) hp, hrest⟩
      | _ => exact .none
  | cancel i =>
    rw [step, step, cancel, cancel]
    cases pops[i]? with
    | none => exact .none
    | some p =>
      cases p with
      | suspended => exact .some ⟨rfl, hbuffer⟩
      | woken cancelled => exact .some ⟨rfl, hbuffer⟩
      | returned result => exact .none
      | threw => exact .none
  | clear => exact .some ⟨rfl, hR.clear hbuffer⟩

theorem run_alike (hR : Simulates ops ops' R) (actions : List (Action α)) :
    Option.Rel (Alike R) (run ops actions) (run ops' actions) :=
  exec_rel (step_alike hR) actions ⟨rfl, hR.initial⟩

/-! ## One element -/

/-- A circular buffer of capacity one holds what the optional holds. -/
theorem simulates_optional :
    Simulates (CircularBuffer.ops : BufferOps (CircularBuffer α 1) α) optionalOps
      fun buffer held ↦ buffer.items = held.toList where
  initial := rfl
  put := by
    rintro ⟨items, hlen⟩ held arg -
    cases items with
    | nil => rfl
    | cons front rest =>
      obtain rfl : rest = [] := List.eq_nil_of_length_eq_zero (by simpa using hlen)
      rfl
  take := by
    rintro ⟨items, hlen⟩ held h
    dsimp only at h
    subst h
    cases held with
    | none => exact .none
    | some result => exact .some ⟨rfl, rfl⟩
  clear _ := rfl

/-! ## No wake-up is lost -/

variable {capacity : ℕ}

/-- If somebody sleeps there are as many waiters on their way as there are elements. -/
def Awake (b : AsyncCircularBuffer (CircularBuffer α capacity) α) : Prop :=
  .suspended ∈ b.pops → b.buffer.items.length ≤ b.pops.countP Pop.isWoken

theorem length_put_le (buffer : CircularBuffer α capacity) (arg : α) :
    (CircularBuffer.ops.put buffer arg).items.length ≤ buffer.items.length + 1 :=
  CircularBuffer.length_pushedBack_le_succ buffer.items arg

theorem length_of_take_eq_none {buffer : CircularBuffer α capacity}
    (h : CircularBuffer.ops.take buffer = none) : buffer.items.length = 0 := by
  obtain ⟨items, hlen⟩ := buffer
  cases items with
  | nil => rfl
  | cons front rest => exact absurd h (by simp [CircularBuffer.ops, CircularBuffer.popFront])

theorem length_of_take_eq_some {buffer rest : CircularBuffer α capacity} {result : α}
    (h : CircularBuffer.ops.take buffer = some (result, rest)) :
    buffer.items.length = rest.items.length + 1 := by
  obtain ⟨items, hlen⟩ := buffer
  cases items with
  | nil => exact absurd h (by simp [CircularBuffer.ops, CircularBuffer.popFront])
  | cons front remaining =>
    obtain ⟨-, rfl⟩ := Prod.mk.inj (Option.some_inj.mp h)
    rfl

theorem Move.awake {b c : AsyncCircularBuffer (CircularBuffer α capacity) α} {a : Action α}
    (h : Move CircularBuffer.ops b a c) (hb : b.Awake) : c.Awake := by
  intro hsleeps
  cases h with
  | pushIdle hidle => exact absurd hsleeps (Pop.suspended_not_mem hidle)
  | @pushWake arg i hi =>
    have hle := hb (List.mem_of_getElem? hi)
    rw [Pop.countP_wake hi]
    exact Nat.le_trans (length_put_le b.buffer arg) (Nat.add_le_add_right hle 1)
  | popTake htake =>
    have hmem : .suspended ∈ b.pops := by simpa using hsleeps
    have hle := hb hmem
    have hlen := length_of_take_eq_some htake
    simp only [List.countP_append]
    omega
  | popWait htake =>
    dsimp only
    rw [length_of_take_eq_none htake]
    exact Nat.zero_le _
  | @resumeTake i cancelled result rest hi htake =>
    have hle := hb (Pop.suspended_mem_of_mem_set (by simp) hsleeps)
    rw [length_of_take_eq_some htake, ← Pop.countP_return hi result] at hle
    exact Nat.le_of_add_le_add_right hle
  | resumeWait hi htake =>
    dsimp only
    rw [length_of_take_eq_none htake]
    exact Nat.zero_le _
  | cancel hi =>
    have hle := hb (Pop.suspended_mem_of_mem_set (by simp) hsleeps)
    exact Nat.le_trans hle (Pop.countP_le_cancel hi)
  | clear => exact Nat.zero_le _

theorem run_awake {actions : List (Action α)}
    {b : AsyncCircularBuffer (CircularBuffer α capacity) α}
    (hrun : run CircularBuffer.ops actions = some b) : b.Awake :=
  exec_invariant Awake (fun hb h ↦ (step_move h).awake hb) (fun h ↦ absurd h List.not_mem_nil) hrun

theorem Awake.exists_woken {b : AsyncCircularBuffer (CircularBuffer α capacity) α} (h : b.Awake)
    (hstored : b.buffer.items ≠ []) (hsleeps : .suspended ∈ b.pops) :
    ∃ p ∈ b.pops, p.isWoken = true := by
  have hle := h hsleeps
  have hpos := List.length_pos_iff.mpr hstored
  exact List.countP_pos_iff.mp (Nat.lt_of_lt_of_le hpos hle)

/-- **The specialisation agrees with the template.** On every list of actions the two are enabled
alike, with the same calls of `pop` suspended, woken and completed and the same element stored, and
no waiter sleeps beside an element that nobody is on the way to. -/
theorem optional_agrees (actions : List (Action α)) :
    ((Primary.run 1 actions).map fun b ↦ (b.pops, b.buffer.items)) =
        (Single.run actions).map (fun b ↦ (b.pops, b.buffer.toList)) ∧
      (∀ capacity b, Primary.run capacity actions = some b →
        b.buffer.items ≠ [] → .suspended ∈ b.pops → ∃ p ∈ b.pops, p.isWoken = true) ∧
      ∀ b, Single.run actions = some b →
        b.buffer ≠ none → .suspended ∈ b.pops → ∃ p ∈ b.pops, p.isWoken = true := by
  have halike := run_alike (α := α) simulates_optional actions
  simp only [Primary.run_eq, Single.run_eq]
  refine ⟨?_, fun capacity b hrun ↦ (run_awake hrun).exists_woken, ?_⟩
  · generalize run CircularBuffer.ops actions = x at halike ⊢
    generalize run optionalOps actions = y at halike ⊢
    cases halike with
    | none => rfl
    | some hbc =>
      rw [Option.map_some, Option.map_some, hbc.pops, hbc.buffer]
  · intro c hrun hstored hsleeps
    rw [hrun] at halike
    -- the circular buffer in the same run has the element and the sleeper as well
    cases hcircular : run CircularBuffer.ops actions with
    | none =>
      rw [hcircular] at halike
      cases halike
    | some b =>
      rw [hcircular] at halike
      obtain ⟨hpops, hbuffer⟩ := Option.rel_some_some.mp halike
      rw [← hpops] at hsleeps ⊢
      refine (run_awake hcircular).exists_woken ?_ hsleeps
      rw [hbuffer]
      simpa using hstored

/-- The second element takes the place of the first one. -/
example : (Primary.run 1 [.push 7 none, .push 8 none, .pop]).map (·.pops)
    = some [.returned 8] := rfl

end AsyncCircularBuffer

/-! ## A window on what was pushed -/

/-- Everything that was pushed, the oldest first, of which the first `seen` elements were taken,
cleared or passed over. -/
structure PushLog (α : Type) where
  pushed : List α := []
  seen : ℕ := 0

namespace PushLog

variable {α : Type} {capacity : ℕ}

/-- Where the elements begin that are not seen and among the last `capacity` ones. -/
def front (capacity : ℕ) (log : PushLog α) : ℕ := max log.seen (log.pushed.length - capacity)

def window (capacity : ℕ) (log : PushLog α) : List α := log.pushed.drop (log.front capacity)

/-- What a circular buffer is for: nothing that was pushed is thrown away, but only the window can
still be taken. -/
def ops (capacity : ℕ) : BufferOps (PushLog α) α where
  initial := {}
  put log arg := { log with pushed := log.pushed ++ [arg] }
  take log := log.pushed[log.front capacity]?.map fun result ↦
    (result, { log with seen := log.front capacity + 1 })
  clear log := { log with seen := log.pushed.length }

/-- A push moves the front of the window just if the window is full. -/
theorem pushedBack_window {log : PushLog α} (hseen : log.seen ≤ log.pushed.length) (item : α) :
    CircularBuffer.pushedBack capacity (log.window capacity) item =
      ((ops capacity).put log item).window capacity := by
  have hlength : (log.window capacity).length = log.pushed.length - log.front capacity :=
    List.length_drop
  have hfront : ((ops capacity).put log item).front capacity =
      max log.seen (log.pushed.length + 1 - capacity) := by
    simp [ops, front]
  have hput : ((ops capacity).put log item).window capacity =
      (log.pushed ++ [item]).drop (max log.seen (log.pushed.length + 1 - capacity)) := by
    rw [window, hfront]
    rfl
  unfold front at hlength
  rw [hput, CircularBuffer.pushedBack]
  split_ifs with hzero hfull
  · rw [List.drop_eq_nil_of_le (by simp; omega), window, front,
      List.drop_eq_nil_of_le (by omega)]
  · rw [window, front, List.tail_drop, List.drop_append_of_le_length (by omega)]
    congr 2
    omega
  · rw [window, front, List.drop_append_of_le_length (by omega)]
    congr 2
    omega

theorem simulates_ops (capacity : ℕ) :
    AsyncCircularBuffer.Simulates (CircularBuffer.ops : BufferOps (CircularBuffer α capacity) α)
      (ops capacity)
      fun buffer log ↦ buffer.items = log.window capacity ∧ log.seen ≤ log.pushed.length where
  initial := ⟨List.drop_nil.symm, Nat.le_refl _⟩
  put := by
    rintro buffer log arg ⟨hitems, hseen⟩
    refine ⟨?_, ?_⟩
    · rw [← pushedBack_window hseen, ← hitems]
      rfl
    · simp only [ops, List.length_append]
      omega
  take := by
    rintro ⟨items, hlen⟩ log ⟨hitems, hseen⟩
    dsimp only at hitems
    rcases hfront : log.pushed[log.front capacity]? with _ | result
    · obtain rfl : items = [] :=
        hitems.trans (List.drop_eq_nil_of_le (List.getElem?_eq_none_iff.mp hfront))
      have htake : (ops capacity).take log = none := by simp [ops, hfront]
      rw [htake]
      exact .none
    · obtain ⟨hlt, hget⟩ := List.getElem?_eq_some_iff.mp hfront
      have hwindow : log.window capacity = result :: log.pushed.drop (log.front capacity + 1) := by
        rw [window, List.drop_eq_getElem_cons hlt, hget]
      obtain rfl := hitems.trans hwindow
      have htake : (ops capacity).take log =
          some (result, { log with seen := log.front capacity + 1 }) := by
        simp [ops, hfront]
      have hnext : max (log.front capacity + 1) (log.pushed.length - capacity) =
          log.front capacity + 1 := by
        unfold front
        omega
      rw [htake]
      exact .some ⟨rfl, (congrArg log.pushed.drop hnext).symm, hlt⟩
  clear := by
    rintro buffer log -
    exact ⟨(List.drop_eq_nil_of_le (Nat.le_max_left _ _)).symm, Nat.le_refl _⟩

end PushLog

namespace AsyncCircularBuffer

variable {α : Type}

/-- **The buffer is a window on what was pushed.** Whatever its capacity and whatever the order of
its calls, each `pop` returns the oldest of the last `capacity` elements that no `pop` has taken or
passed over and no `clear` has dropped, and waits just when there is none. -/
theorem run_window (capacity : ℕ) (actions : List (AsyncQueue.Action α)) :
    ((Primary.run capacity actions).map fun b ↦ (b.pops, b.buffer.items)) =
      (run (PushLog.ops capacity) actions).map fun b ↦ (b.pops, b.buffer.window capacity) := by
  rw [Primary.run_eq]
  have halike := run_alike (PushLog.simulates_ops (α := α) capacity) actions
  generalize run CircularBuffer.ops actions = x at halike ⊢
  generalize run (PushLog.ops capacity) actions = y at halike ⊢
  cases halike with
  | none => rfl
  | some hbc => rw [Option.map_some, Option.map_some, hbc.pops, hbc.buffer.1]

end AsyncCircularBuffer

end Util

end BoostConnector
