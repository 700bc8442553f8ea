import BoostConnector.Entity.Key
import BoostConnector.Transition.Run

/-!
# Programs over keys

A program creates keys over documents of its own, with nothing used, and applies `use`, `merge`,
`fix` and `mutate` to the keys it has. The keys of a program form a pool, mutable and immutable ones
numbered in the order of their creation.

An index is meant to hold used elements of the key's own document. `use` looks up a path before it
indexes it, but `merge` copies the paths of a key that may be over another document. What follows is
exact: every key of every state is valid just when each merge brings in paths that resolve in the
receiving document (`valid_iff_merges_resolve`).
-/

namespace BoostConnector

namespace Entity

open Collections Json Transition

variable {sha256 : Bytes → Sha256Digest}

/-! ## Valid keys -/

/-- Every indexed path is canonical and resolves in the key's own document. -/
def KeyBase.Valid (self : KeyBase) : Prop :=
  ∀ path ∈ self.index.toList, Canonical path ∧ Resolves self.value.1 path

instance (self : KeyBase) : Decidable self.Valid :=
  inferInstanceAs (Decidable (∀ path ∈ self.index.toList, _))

theorem KeyBase.Valid.resolves {self : KeyBase} (h : self.Valid) :
    ∀ path ∈ self.index, Resolves self.value.1 path := fun path hpath ↦ (h path hpath).2

theorem valid_empty (original : Document) : KeyBase.Valid ⟨original, ∅⟩ := List.forall_mem_nil _

namespace MutableKey

/-- The key that `use` reads is the one it is called on. -/
theorem use_eq (self : MutableKey) (path : Bytes) :
    use path self = (do
      try
        let ref ← ofExcept (findSegments self.value.1 (dissectPath path))
        modify fun self ↦ { self with index := self.index.insert (toPath (dissectPath path)) }
        pure ref
      catch e => throw (.nestedInvalidArgument (ascii "mutable_key::use: " ++ path) e) :
        EStateM Exception MutableKey Value) self := rfl

theorem use_of_ok {self : MutableKey} {path : Bytes} {ref : Value}
    (h : findSegments self.value.1 (dissectPath path) = .ok ref) :
    use path self
      = .ok ref { self with index := self.index.insert (toPath (dissectPath path)) } := by
  rw [use_eq, h]
  rfl

theorem use_of_error {self : MutableKey} {path : Bytes} {e : Exception}
    (h : findSegments self.value.1 (dissectPath path) = .error e) :
    use path self
      = .error (.nestedInvalidArgument (ascii "mutable_key::use: " ++ path) e) self := by
  rw [use_eq, h]
  rfl

/-- A use has found the value and has indexed its canonical path, or it throws and leaves the key as
it was. -/
theorem use_cases (self : MutableKey) (path : Bytes) :
    (∃ ref, findSegments self.value.1 (dissectPath path) = .ok ref ∧ use path self
        = .ok ref { self with index := self.index.insert (toPath (dissectPath path)) }) ∨
      ∃ e e', findSegments self.value.1 (dissectPath path) = .error e ∧
        use path self = .error e' self := by
  cases hfind : findSegments self.value.1 (dissectPath path) with
  | ok ref => exact .inl ⟨ref, rfl, use_of_ok hfind⟩
  | error e => exact .inr ⟨e, _, rfl, use_of_error hfind⟩

theorem valid_of_use {self : MutableKey} (hvalid : self.Valid) (path : Bytes) :
    (after (use path self)).Valid := by
  rcases use_cases self path with ⟨ref, hfind, huse⟩ | ⟨e, e', -, huse⟩
  · rw [huse]
    intro indexed hindexed
    rcases SortedSet.mem_insert.mp hindexed with rfl | hindexed
    · refine ⟨canonical_toPath_dissectPath path, ref, ?_⟩
      rw [findPath_toPath_dissectPath]
      exact hfind
    · exact hvalid indexed hindexed
  · rw [huse]
    exact hvalid

/-- The paths of the other key lead somewhere in the document of this one. -/
def MergeResolves (self : MutableKey) (other : ImmutableKey sha256) : Prop :=
  ∀ path ∈ other.index.toList, Resolves self.value.1 path

instance (self : MutableKey) (other : ImmutableKey sha256) : Decidable (self.MergeResolves other) :=
  inferInstanceAs (Decidable (∀ path ∈ other.index.toList, _))

theorem valid_merge_iff {self : MutableKey} {other : ImmutableKey sha256} (hvalid : self.Valid)
    (hother : other.Valid) : (self.merge other).Valid ↔ self.MergeResolves other := by
  constructor
  · intro h path hpath
    exact (h path (SortedSet.mem_insertMany.mpr (.inr hpath))).2
  · intro h path hpath
    rcases SortedSet.mem_insertMany.mp hpath with hpath | hpath
    · exact hvalid path hpath
    · exact ⟨(hother path hpath).1, h path hpath⟩

theorem fix_isOk {self : MutableKey} (hvalid : self.Valid) : (self.fix sha256).isOk = true := by
  rw [fix, ImmutableKey.make_of_resolves hvalid.resolves]
  rfl

end MutableKey

theorem KeyBase.print_isOk {self : KeyBase} (hvalid : self.Valid) (serialize : Value → Bytes) :
    (self.print serialize).isOk = true :=
  printFrom_isOk hvalid.resolves serialize []

theorem ImmutableKey.valid_of_make {original : Document} {idx : PathSet}
    {key : ImmutableKey sha256} (hvalid : KeyBase.Valid ⟨original, idx⟩)
    (h : make sha256 original idx = .ok key) : key.Valid := by
  rw [toKeyBase_of_make h]
  exact hvalid

/-! ## Pools and programs -/

structure Pool (sha256 : Bytes → Sha256Digest) where
  mutableKeys : List MutableKey := []
  immutableKeys : List (ImmutableKey sha256) := []

inductive Command where
  | newMutable (original : Document)
  | newImmutable (original : Document)
  | use (key : ℕ) (path : Bytes)
  | merge (key other : ℕ)
  | fix (key : ℕ)
  | mutate (key : ℕ)

namespace Pool

def addMutable (pool : Pool sha256) (key : MutableKey) : Pool sha256 :=
  { pool with mutableKeys := pool.mutableKeys ++ [key] }

/-- A constructor that throws makes no key. -/
def addImmutable (pool : Pool sha256) : Except Exception (ImmutableKey sha256) → Pool sha256
  | .ok key => { pool with immutableKeys := pool.immutableKeys ++ [key] }
  | .error _ => pool

def setMutable (pool : Pool sha256) (i : ℕ) (key : MutableKey) : Pool sha256 :=
  { pool with mutableKeys := pool.mutableKeys.set i key }

/-- One call, undefined on a key that the program does not have. The program catches exceptions. -/
def step : Command → Pool sha256 → Option (Pool sha256)
  | .newMutable original, pool => some (pool.addMutable ⟨⟨original, ∅⟩⟩)
  | .newImmutable original, pool => some (pool.addImmutable (ImmutableKey.make sha256 original ∅))
  | .use i path, pool => pool.mutableKeys[i]?.map fun self ↦
    pool.setMutable i (MutableKey.after (MutableKey.use path self))
  | .merge i j, pool => pool.mutableKeys[i]?.bind fun self ↦
    pool.immutableKeys[j]?.map fun other ↦ pool.setMutable i (self.merge other)
  | .fix i, pool => pool.mutableKeys[i]?.map fun self ↦ pool.addImmutable (self.fix sha256)
  | .mutate j, pool => pool.immutableKeys[j]?.map fun self ↦ pool.addMutable self.mutate

variable (sha256) in
def run (program : List Command) : Option (Pool sha256) := exec step program {}

/-! ## Validity of a pool -/

structure Valid (pool : Pool sha256) : Prop where
  mutableKeys : ∀ key ∈ pool.mutableKeys, key.Valid
  immutableKeys : ∀ key ∈ pool.immutableKeys, key.Valid

/-- No call that reads an index throws. -/
structure NeverThrows (serialize : Value → Bytes) (pool : Pool sha256) : Prop where
  fix : ∀ key ∈ pool.mutableKeys, (key.fix sha256).isOk = true
  printMutable : ∀ key ∈ pool.mutableKeys, (key.print serialize).isOk = true
  printImmutable : ∀ key ∈ pool.immutableKeys, (key.print serialize).isOk = true
  equal : ∀ l ∈ pool.immutableKeys, ∀ r ∈ pool.immutableKeys, (l.equal r).isOk = true

theorem Valid.neverThrows {pool : Pool sha256} (h : pool.Valid) (serialize : Value → Bytes) :
    pool.NeverThrows serialize where
  fix key hkey := MutableKey.fix_isOk (h.mutableKeys key hkey)
  printMutable key hkey := KeyBase.print_isOk (h.mutableKeys key hkey) serialize
  printImmutable key hkey := KeyBase.print_isOk (h.immutableKeys key hkey) serialize
  equal l _ r _ := l.equal_isOk r

theorem Valid.addMutable {pool : Pool sha256} (h : pool.Valid) {key : MutableKey}
    (hkey : key.Valid) : (pool.addMutable key).Valid where
  mutableKeys := List.forall_mem_append.mpr ⟨h.mutableKeys, List.forall_mem_singleton.mpr hkey⟩
  immutableKeys := h.immutableKeys

theorem Valid.setMutable {pool : Pool sha256} (h : pool.Valid) {key : MutableKey} (i : ℕ)
    (hkey : key.Valid) : (pool.setMutable i key).Valid where
  mutableKeys k hk := (List.mem_or_eq_of_mem_set hk).elim (h.mutableKeys k) fun heq ↦ heq ▸ hkey
  immutableKeys := h.immutableKeys

theorem Valid.addMake {pool : Pool sha256} (h : pool.Valid) {original : Document} {idx : PathSet}
    (hvalid : KeyBase.Valid ⟨original, idx⟩) :
    (pool.addImmutable (ImmutableKey.make sha256 original idx)).Valid := by
  cases hmake : ImmutableKey.make sha256 original idx with
  | error e => exact h
  | ok key =>
    refine ⟨h.mutableKeys, List.forall_mem_append.mpr ⟨h.immutableKeys, ?_⟩⟩
    exact List.forall_mem_singleton.mpr (ImmutableKey.valid_of_make hvalid hmake)

/-- Where the command is a merge, the merged paths resolve in the receiving document. -/
def MergeResolves : Command → Pool sha256 → Prop
  | .merge i j, pool => ∀ self ∈ pool.mutableKeys[i]?, ∀ other ∈ pool.immutableKeys[j]?,
    self.MergeResolves other
  | _, _ => True

/-- **One call.** A merge makes the pool invalid unless its paths resolve; nothing else does. -/
theorem Valid.step_iff {pool pool' : Pool sha256} {command : Command} (h : pool.Valid)
    (hstep : step command pool = some pool') : pool'.Valid ↔ MergeResolves command pool := by
  cases command with
  | newMutable original =>
    obtain rfl := Option.some_inj.mp hstep
    exact iff_of_true (h.addMutable (valid_empty original)) trivial
  | newImmutable original =>
    obtain rfl := Option.some_inj.mp hstep
    exact iff_of_true (h.addMake (valid_empty original)) trivial
  | use i path =>
    obtain ⟨self, hself, rfl⟩ := Option.map_eq_some_iff.mp hstep
    have hvalid := h.mutableKeys self (List.mem_of_getElem? hself)
    exact iff_of_true (h.setMutable i (MutableKey.valid_of_use hvalid path)) trivial
  | merge i j =>
    obtain ⟨self, hself, hset⟩ := Option.bind_eq_some_iff.mp hstep
    obtain ⟨other, hother, rfl⟩ := Option.map_eq_some_iff.mp hset
    have hmerge := MutableKey.valid_merge_iff (h.mutableKeys self (List.mem_of_getElem? hself))
      (h.immutableKeys other (List.mem_of_getElem? hother))
    have hresolves : MergeResolves (.merge i j) pool ↔ self.MergeResolves other := by
      simp [MergeResolves, hself, hother]
    rw [hresolves, ← hmerge]
    constructor
    · intro hpool
      refine hpool.mutableKeys _ (List.mem_set ?_ _)
      exact (List.getElem?_eq_some_iff.mp hself).1
    · exact h.setMutable i
  | fix i =>
    obtain ⟨self, hself, rfl⟩ := Option.map_eq_some_iff.mp hstep
    exact iff_of_true (h.addMake (h.mutableKeys self (List.mem_of_getElem? hself))) trivial
  | mutate j =>
    obtain ⟨self, hself, rfl⟩ := Option.map_eq_some_iff.mp hstep
    exact iff_of_true (h.addMutable (h.immutableKeys self (List.mem_of_getElem? hself))) trivial

/-- A merge of keys that do not exist is no call. -/
theorem mergeResolves_of_step_eq_none {pool : Pool sha256} {command : Command}
    (hstep : step command pool = none) : MergeResolves command pool := by
  cases command with
  | merge i j =>
    intro self hself other hother
    rw [Option.mem_def] at hself hother
    simp [step, hself, hother] at hstep
  | _ => trivial

theorem valid_start : ({} : Pool sha256).Valid :=
  ⟨List.forall_mem_nil _, List.forall_mem_nil _⟩

/-- **Validity of every key of a program**, and with it that no call throws: it holds in all states
exactly when each merge brings in paths that resolve in the receiving document. -/
theorem valid_iff_merges_resolve (serialize : Value → Bytes) (program : List Command) :
    (∀ before pool, before <+: program → run sha256 before = some pool →
      pool.Valid ∧ pool.NeverThrows serialize) ↔
    Along step MergeResolves program ({} : Pool sha256) := by
  rw [← forall_prefix_iff_along (fun hvalid hstep ↦ hvalid.step_iff hstep)
    (fun _ _ hnone ↦ mergeResolves_of_step_eq_none hnone) valid_start]
  constructor
  · exact fun h before pool hbefore hrun ↦ (h before pool hbefore hrun).1
  · intro h before pool hbefore hrun
    have hvalid := h before pool hbefore hrun
    exact ⟨hvalid, hvalid.neverThrows serialize⟩

/-- A key over a document that has only the member `a`, merged into a key over a document that has
only the member `b`. -/
def crossMerge : List Command :=
  [.newMutable ⟨.object [(ascii "a", .null)], wellFormed_member trivial⟩,
    .use 0 (ascii "a"), .fix 0,
    .newMutable ⟨.object [(ascii "b", .null)], wellFormed_member trivial⟩,
    .merge 1 0]

/-- The receiving key is not valid afterwards, and neither fixing nor printing it gets through. -/
theorem crossMerge_spoils_key :
    ∃ pool, run Sha256Digest.openssl crossMerge = some pool ∧
      ∃ key ∈ pool.mutableKeys, ¬key.Valid ∧ (key.fix Sha256Digest.openssl).isOk = false ∧
        (key.print fun _ ↦ []).isOk = false := by
  have h : (run Sha256Digest.openssl crossMerge).any (fun pool ↦ pool.mutableKeys.any fun key ↦
      decide (¬key.Valid ∧ (key.fix Sha256Digest.openssl).isOk = false ∧
        (key.print fun _ ↦ []).isOk = false)) = true := by
    decide +kernel
  simpa only [Option.any_eq_true, List.any_eq_true, decide_eq_true_eq] using h

end Pool

end Entity

end BoostConnector
