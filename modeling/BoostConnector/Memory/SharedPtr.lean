import BoostConnector.Collections.ListPool

/-!
# Shared pointers

A control block with its two counts, and the `std::shared_ptr` and `std::weak_ptr` objects of a
program that may refer to it, each with the one bit that says whether it does. The objects are
numbered in the order of their creation. An assignment is a copy or a move followed by the release
of the old value.

The counts are what the code looks at: the last owner is the one whose release brings `useCount` to
zero, and the block is freed with the last of `weakCount`, in which the owners together count for
one. That `useCount` is the number of owners is an invariant (`UseCounted`), up to owners that are
not objects of the program, such as a copy held by a deleter.
-/

namespace BoostConnector

namespace Memory

open Collections

@[ext] structure ControlBlock where
  useCount : ℕ := 0
  weakCount : ℕ := 0
  /-- The `shared_ptr` objects, and whether they own. -/
  owners : List Bool := []
  /-- The `weak_ptr` objects, and whether they refer to the block. -/
  observers : List Bool := []

/-- The operations that release nothing. -/
inductive Handling where
  | copy (i : ℕ)
  | move (i : ℕ)
  | weaken (i : ℕ)
  | lock (i : ℕ)
  | copyWeak (i : ℕ)
  | moveWeak (i : ℕ)

namespace ControlBlock

/-- A first owner. -/
def new : ControlBlock where
  useCount := 1
  weakCount := 1
  owners := [true]

/-- A new `shared_ptr`, empty or sharing ownership. -/
def addOwner (block : ControlBlock) (owns : Bool) : ControlBlock :=
  { block with useCount := block.useCount + owns.toNat, owners := block.owners ++ [owns] }

def addObserver (block : ControlBlock) (refers : Bool) : ControlBlock :=
  { block with
    weakCount := block.weakCount + refers.toNat, observers := block.observers ++ [refers] }

def handle : Handling → ControlBlock → Option ControlBlock
  | .copy i, block => block.owners[i]?.map block.addOwner
  | .move i, block => block.owners[i]?.map fun owns ↦
    { block with owners := (block.owners ++ [owns]).set i false }
  | .weaken i, block => block.owners[i]?.map block.addObserver
  | .lock i, block => block.observers[i]?.map fun refers ↦
    block.addOwner (refers && block.useCount != 0)
  | .copyWeak i, block => block.observers[i]?.map block.addObserver
  | .moveWeak i, block => block.observers[i]?.map fun refers ↦
    { block with observers := (block.observers ++ [refers]).set i false }

/-- `reset` and the destructor of a `shared_ptr`. -/
def release (i : ℕ) (block : ControlBlock) : Option ControlBlock :=
  block.owners[i]?.map fun owns ↦
    { block with useCount := block.useCount - owns.toNat, owners := block.owners.set i false }

/-- `reset` and the destructor of a `weak_ptr`. -/
def releaseWeak (i : ℕ) (block : ControlBlock) : Option ControlBlock :=
  block.observers[i]?.map fun refers ↦
    { block with
      weakCount := block.weakCount - refers.toNat, observers := block.observers.set i false }

/-- One owner less that is no object of the program. -/
def dropUse (block : ControlBlock) : ControlBlock :=
  { block with useCount := block.useCount - 1 }

/-- The owners' share of the weak count. -/
def dropWeak (block : ControlBlock) : ControlBlock :=
  { block with weakCount := block.weakCount - 1 }

/-- Some `shared_ptr` of the program owns. -/
def Owned (block : ControlBlock) : Prop := true ∈ block.owners

instance (block : ControlBlock) : Decidable block.Owned :=
  inferInstanceAs (Decidable (true ∈ block.owners))

/-! ## The counts -/

/-- The use count is the number of owners, with `extra` owners that are no objects of the
program. -/
def UseCounted (extra : ℕ) (block : ControlBlock) : Prop :=
  block.useCount = block.owners.count true + extra

def WeakCounted (extra : ℕ) (block : ControlBlock) : Prop :=
  block.weakCount = block.observers.count true + extra

theorem count_concat (l : List Bool) (b : Bool) :
    (l ++ [b]).count true = l.count true + b.toNat := by
  rw [List.count_append]
  cases b with
  | false => rfl
  | true => rfl

/-- Clearing a place takes what was there off the count. -/
theorem count_set_false {l : List Bool} {i : ℕ} {b : Bool} (h : l[i]? = some b) :
    (l.set i false).count true + b.toNat = l.count true := by
  have hset := countP_set_add (p := (· == true)) h false
  rw [← List.count_eq_countP, ← List.count_eq_countP] at hset
  cases b with
  | false => exact hset
  | true => exact hset

theorem count_move {l : List Bool} {i : ℕ} {b : Bool} (h : l[i]? = some b) :
    ((l ++ [b]).set i false).count true = l.count true := by
  have hlt : i < l.length := (List.getElem?_eq_some_iff.mp h).1
  have hset := count_set_false ((List.getElem?_append_left hlt).trans h) (l := l ++ [b])
  rw [count_concat] at hset
  omega

theorem owned_iff {block : ControlBlock} : block.Owned ↔ 0 < block.owners.count true :=
  List.count_pos_iff.symm

variable {block block' : ControlBlock} {extra : ℕ}

theorem UseCounted.addOwner (h : block.UseCounted extra) (owns : Bool) :
    (block.addOwner owns).UseCounted extra := by
  simp only [UseCounted, ControlBlock.addOwner, count_concat] at h ⊢
  omega

theorem WeakCounted.addObserver (h : block.WeakCounted extra) (refers : Bool) :
    (block.addObserver refers).WeakCounted extra := by
  simp only [WeakCounted, ControlBlock.addObserver, count_concat] at h ⊢
  omega

/-- What releases nothing keeps the use count right, and keeps it from becoming or ceasing to be
zero. -/
theorem UseCounted.handle (h : block.UseCounted extra) {op : Handling}
    (hop : block.handle op = some block') :
    block'.UseCounted extra ∧ (block'.useCount = 0 ↔ block.useCount = 0) := by
  cases op with
  | copy i =>
    obtain ⟨owns, hi, rfl⟩ := Option.map_eq_some_iff.mp hop
    have hset := count_set_false hi
    refine ⟨h.addOwner owns, ?_⟩
    simp only [UseCounted] at h
    simp only [ControlBlock.addOwner]
    omega
  | move i =>
    obtain ⟨owns, hi, rfl⟩ := Option.map_eq_some_iff.mp hop
    exact ⟨h.trans (congrArg (· + extra) (count_move hi).symm), Iff.rfl⟩
  | weaken i =>
    obtain ⟨owns, -, rfl⟩ := Option.map_eq_some_iff.mp hop
    exact ⟨h, Iff.rfl⟩
  | lock i =>
    obtain ⟨refers, -, rfl⟩ := Option.map_eq_some_iff.mp hop
    refine ⟨h.addOwner _, ?_⟩
    rcases Nat.eq_zero_or_pos block.useCount with hzero | hpos
    · simp [ControlBlock.addOwner, hzero]
    · simp only [ControlBlock.addOwner]
      omega
  | copyWeak i =>
    obtain ⟨refers, -, rfl⟩ := Option.map_eq_some_iff.mp hop
    exact ⟨h, Iff.rfl⟩
  | moveWeak i =>
    obtain ⟨refers, -, rfl⟩ := Option.map_eq_some_iff.mp hop
    exact ⟨h, Iff.rfl⟩

/-- The same for the weak count, in a block that is not freed before its last owner is gone. -/
theorem WeakCounted.handle (h : block.WeakCounted extra)
    (hlive : block.Owned → block.weakCount ≠ 0) {op : Handling}
    (hop : block.handle op = some block') :
    block'.WeakCounted extra ∧ (block'.weakCount = 0 ↔ block.weakCount = 0) := by
  cases op with
  | copy i =>
    obtain ⟨owns, -, rfl⟩ := Option.map_eq_some_iff.mp hop
    exact ⟨h, Iff.rfl⟩
  | move i =>
    obtain ⟨owns, -, rfl⟩ := Option.map_eq_some_iff.mp hop
    exact ⟨h, Iff.rfl⟩
  | weaken i =>
    obtain ⟨owns, hi, rfl⟩ := Option.map_eq_some_iff.mp hop
    refine ⟨h.addObserver owns, ?_⟩
    cases owns with
    | false => exact Iff.rfl
    | true =>
      have hne := hlive (List.mem_of_getElem? hi)
      simp only [ControlBlock.addObserver]
      omega
  | lock i =>
    obtain ⟨refers, -, rfl⟩ := Option.map_eq_some_iff.mp hop
    exact ⟨h, Iff.rfl⟩
  | copyWeak i =>
    obtain ⟨refers, hi, rfl⟩ := Option.map_eq_some_iff.mp hop
    have hset := count_set_false hi
    refine ⟨h.addObserver refers, ?_⟩
    simp only [WeakCounted] at h
    simp only [ControlBlock.addObserver]
    omega
  | moveWeak i =>
    obtain ⟨refers, hi, rfl⟩ := Option.map_eq_some_iff.mp hop
    exact ⟨h.trans (congrArg (· + extra) (count_move hi).symm), Iff.rfl⟩

theorem UseCounted.release (h : block.UseCounted extra) {i : ℕ}
    (hrelease : block.release i = some block') :
    block'.UseCounted extra ∧ block'.useCount ≤ block.useCount := by
  obtain ⟨owns, hi, rfl⟩ := Option.map_eq_some_iff.mp hrelease
  have hset := count_set_false hi
  simp only [UseCounted] at h ⊢
  omega

theorem WeakCounted.releaseWeak (h : block.WeakCounted extra) {i : ℕ}
    (hrelease : block.releaseWeak i = some block') :
    block'.WeakCounted extra ∧ block'.weakCount ≤ block.weakCount := by
  obtain ⟨refers, hi, rfl⟩ := Option.map_eq_some_iff.mp hrelease
  have hset := count_set_false hi
  simp only [WeakCounted] at h ⊢
  omega

theorem UseCounted.dropUse (h : block.UseCounted (extra + 1)) : block.dropUse.UseCounted extra := by
  simp only [UseCounted, ControlBlock.dropUse] at h ⊢
  omega

theorem WeakCounted.dropWeak (h : block.WeakCounted (extra + 1)) :
    block.dropWeak.WeakCounted extra := by
  simp only [WeakCounted, ControlBlock.dropWeak] at h ⊢
  omega

end ControlBlock

end Memory

end BoostConnector
