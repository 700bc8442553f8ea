import BoostConnector.Entity.KeyPool
import BoostConnector.Json.Reordered

/-!
# Keys over reordered documents

Two programs make the same calls, the one on keys over some documents and the other on keys over the
same documents with the members of objects in another order. Call by call they keep their pools
related: equal indexes, over documents that differ in the order of members only. Uses therefore
succeed or throw together, and equal bytes reach SHA-256 (`runs_agree`).
-/

namespace BoostConnector

namespace Entity

open Collections Json Transition

variable {sha256 : Bytes → Sha256Digest}

/-- The same index, over documents that differ in the order of members. -/
structure KeyBase.Reordered (l r : KeyBase) : Prop where
  value : l.value.1.Reordered r.value.1
  index : l.index = r.index

/-- The same call on a document with its members in another order. -/
def Command.Reordered : Command → Command → Prop
  | .newMutable original, .newMutable original' => original.1.Reordered original'.1
  | .newImmutable original, .newImmutable original' => original.1.Reordered original'.1
  | command, command' => command = command'

/-! ## The calls -/

theorem findPath_sameOutcome {l r : Document} (h : l.1.Reordered r.1) (path : Bytes) :
    SameOutcome Value.Reordered (findPath l.1 path) (findPath r.1 path) :=
  findPathFrom_sameOutcome l.2 h [] _

/-- The bytes for the digest are the same, and so is an exception on the way. -/
theorem digestInput_eq {l r : Document} (h : l.1.Reordered r.1) (paths : List Bytes) :
    digestInput l.1 paths = digestInput r.1 paths := by
  induction paths with
  | nil => rfl
  | cons path paths ih =>
    rw [digestInput, digestInput, ih]
    have hfound := findPath_sameOutcome h path
    have hwf : ∀ v, findPath l.1 path = .ok v → v.WellFormed := fun _ ↦
      findPathFrom_invariant wellFormed_of_subvalue l.2
    generalize findPath l.1 path = found at hfound hwf
    generalize findPath r.1 path = found' at hfound
    cases hfound with
    | error => rfl
    | ok hvw =>
      dsimp only
      rw [updateSha256_eq_of_reordered (hwf _ rfl) hvw]

namespace MutableKey

variable {l r : MutableKey}

/-- A use finds the same element in both, or throws on both. -/
theorem use_sameOutcome (h : l.toKeyBase.Reordered r.toKeyBase) (path : Bytes) :
    SameOutcome Value.Reordered (outcome (use path l)) (outcome (use path r)) ∧
      (after (use path l)).toKeyBase.Reordered (after (use path r)).toKeyBase := by
  have hfound := findPathFrom_sameOutcome l.value.2 h.value [] (dissectPath path)
  rw [← findSegments, ← findSegments] at hfound
  generalize hl : findSegments l.value.1 (dissectPath path) = found at hfound
  generalize hr : findSegments r.value.1 (dissectPath path) = found' at hfound
  cases hfound with
  | error =>
    rw [use_of_error hl, use_of_error hr]
    exact ⟨.error _, h⟩
  | ok hvw =>
    rw [use_of_ok hl, use_of_ok hr]
    exact ⟨.ok hvw, h.value, congrArg (SortedSet.insert _) h.index⟩

theorem merge_reordered {l' r' : ImmutableKey sha256} (h : l.toKeyBase.Reordered r.toKeyBase)
    (h' : l'.toKeyBase.Reordered r'.toKeyBase) :
    (l.merge l').toKeyBase.Reordered (r.merge r').toKeyBase where
  value := h.value
  index := by rw [merge, merge, h.index, h'.index]

end MutableKey

namespace ImmutableKey

theorem make_of_error {original : Document} {idx : PathSet} {e : Exception}
    (h : digestInput original.1 idx.toList = .error e) :
    make sha256 original idx = .error e := by
  rw [make]
  split
  · next input hok => exact absurd (hok.symm.trans h) (by simp)
  · next e' herror => rw [Except.error.inj (herror.symm.trans h)]

/-- The constructor gets through on both documents, or lets the same exception out. -/
theorem make_sameOutcome {original original' : Document}
    (h : original.1.Reordered original'.1) (idx : PathSet) :
    SameOutcome (fun l r : ImmutableKey sha256 ↦ l.toKeyBase.Reordered r.toKeyBase)
      (make sha256 original idx) (make sha256 original' idx) := by
  have hsame := digestInput_eq h idx.toList
  cases hinput : digestInput original.1 idx.toList with
  | error e =>
    rw [make_of_error hinput, make_of_error (hsame.symm.trans hinput)]
    exact .error e
  | ok input =>
    rw [make_of_resolves (resolves_of_digestInput hinput),
      make_of_resolves (resolves_of_digestInput (hsame.symm.trans hinput))]
    exact .ok ⟨h, rfl⟩

theorem digest_eq_of_reordered {l r : ImmutableKey sha256}
    (h : l.toKeyBase.Reordered r.toKeyBase) : l.digest = r.digest := by
  have hdigested := l.digested
  rw [digestInput_eq h.value, h.index] at hdigested
  exact Except.ok.inj (hdigested.symm.trans r.digested)

end ImmutableKey

/-! ## Programs -/

namespace Pool

variable {pool pool' next : Pool sha256}

structure Reordered (pool pool' : Pool sha256) : Prop where
  mutableKeys : List.Forall₂ (fun l r ↦ l.toKeyBase.Reordered r.toKeyBase)
    pool.mutableKeys pool'.mutableKeys
  immutableKeys : List.Forall₂ (fun l r ↦ l.toKeyBase.Reordered r.toKeyBase)
    pool.immutableKeys pool'.immutableKeys

theorem Reordered.addMutable (h : pool.Reordered pool') {l r : MutableKey}
    (hlr : l.toKeyBase.Reordered r.toKeyBase) :
    (pool.addMutable l).Reordered (pool'.addMutable r) where
  mutableKeys := forall₂_concat h.mutableKeys hlr
  immutableKeys := h.immutableKeys

theorem Reordered.setMutable (h : pool.Reordered pool') (i : ℕ) {l r : MutableKey}
    (hlr : l.toKeyBase.Reordered r.toKeyBase) :
    (pool.setMutable i l).Reordered (pool'.setMutable i r) where
  mutableKeys := forall₂_set h.mutableKeys i hlr
  immutableKeys := h.immutableKeys

theorem Reordered.addMake (h : pool.Reordered pool') {original original' : Document}
    (horiginal : original.1.Reordered original'.1) (idx : PathSet) :
    (pool.addImmutable (ImmutableKey.make sha256 original idx)).Reordered
      (pool'.addImmutable (ImmutableKey.make sha256 original' idx)) := by
  have hmade : SameOutcome (fun l r : ImmutableKey sha256 ↦ l.toKeyBase.Reordered r.toKeyBase)
      (ImmutableKey.make sha256 original idx) (ImmutableKey.make sha256 original' idx) :=
    ImmutableKey.make_sameOutcome horiginal idx
  generalize ImmutableKey.make sha256 original idx = made at hmade
  generalize ImmutableKey.make sha256 original' idx = made' at hmade
  cases hmade with
  | ok hlr => exact ⟨h.mutableKeys, forall₂_concat h.immutableKeys hlr⟩
  | error => exact h

/-- **One call** on both sides. -/
theorem Reordered.step (h : pool.Reordered pool') {command command' : Command}
    (hcommand : command.Reordered command') (hstep : step command pool = some next) :
    ∃ next', step command' pool' = some next' ∧ next.Reordered next' := by
  cases command with
  | newMutable original =>
    cases command' with
    | newMutable original' =>
      obtain rfl := Option.some_inj.mp hstep
      exact ⟨_, rfl, h.addMutable ⟨hcommand, rfl⟩⟩
    | _ => exact absurd hcommand (by simp [Command.Reordered])
  | newImmutable original =>
    cases command' with
    | newImmutable original' =>
      obtain rfl := Option.some_inj.mp hstep
      exact ⟨_, rfl, h.addMake hcommand ∅⟩
    | _ => exact absurd hcommand (by simp [Command.Reordered])
  | use i path =>
    obtain rfl : .use i path = command' := hcommand
    obtain ⟨l, hl, rfl⟩ := Option.map_eq_some_iff.mp hstep
    obtain ⟨r, hr, hlr⟩ := forall₂_getElem? h.mutableKeys hl
    refine ⟨_, Option.map_eq_some_iff.mpr ⟨r, hr, rfl⟩, ?_⟩
    exact h.setMutable i (MutableKey.use_sameOutcome hlr path).2
  | merge i j =>
    obtain rfl : .merge i j = command' := hcommand
    obtain ⟨l, hl, hset⟩ := Option.bind_eq_some_iff.mp hstep
    obtain ⟨l', hl', rfl⟩ := Option.map_eq_some_iff.mp hset
    obtain ⟨r, hr, hlr⟩ := forall₂_getElem? h.mutableKeys hl
    obtain ⟨r', hr', hlr'⟩ := forall₂_getElem? h.immutableKeys hl'
    refine ⟨_, ?_, h.setMutable i (MutableKey.merge_reordered hlr hlr')⟩
    rw [Pool.step, hr, hr']
    rfl
  | fix i =>
    obtain rfl : .fix i = command' := hcommand
    obtain ⟨l, hl, rfl⟩ := Option.map_eq_some_iff.mp hstep
    obtain ⟨r, hr, hlr⟩ := forall₂_getElem? h.mutableKeys hl
    refine ⟨_, Option.map_eq_some_iff.mpr ⟨r, hr, rfl⟩, ?_⟩
    rw [MutableKey.fix, MutableKey.fix, hlr.index]
    exact h.addMake hlr.value _
  | mutate j =>
    obtain rfl : .mutate j = command' := hcommand
    obtain ⟨l, hl, rfl⟩ := Option.map_eq_some_iff.mp hstep
    obtain ⟨r, hr, hlr⟩ := forall₂_getElem? h.immutableKeys hl
    exact ⟨_, Option.map_eq_some_iff.mpr ⟨r, hr, rfl⟩, h.addMutable hlr⟩

/-- What a caller sees of the keys of the two programs. -/
structure Agrees (pool pool' : Pool sha256) : Prop where
  mutableLength : pool.mutableKeys.length = pool'.mutableKeys.length
  immutableLength : pool.immutableKeys.length = pool'.immutableKeys.length
  mutableIndex : ∀ (i : ℕ) (l r : MutableKey), pool.mutableKeys[i]? = some l →
    pool'.mutableKeys[i]? = some r → l.index = r.index
  use : ∀ (i : ℕ) (l r : MutableKey), pool.mutableKeys[i]? = some l →
    pool'.mutableKeys[i]? = some r → ∀ path,
      SameOutcome Value.Reordered (MutableKey.outcome (MutableKey.use path l))
        (MutableKey.outcome (MutableKey.use path r))
  immutableIndex : ∀ (i : ℕ) (l r : ImmutableKey sha256), pool.immutableKeys[i]? = some l →
    pool'.immutableKeys[i]? = some r → l.index = r.index
  digest : ∀ (i : ℕ) (l r : ImmutableKey sha256), pool.immutableKeys[i]? = some l →
    pool'.immutableKeys[i]? = some r →
      (∃ bytes, digestInput l.value.1 l.index.toList = .ok bytes ∧
        digestInput r.value.1 r.index.toList = .ok bytes) ∧
      l.digest = r.digest ∧ ∀ hashRange, l.hashValue hashRange = r.hashValue hashRange

theorem Reordered.agrees (h : pool.Reordered pool') : pool.Agrees pool' := by
  have hmutable {i : ℕ} {l r : MutableKey} (hl : pool.mutableKeys[i]? = some l)
      (hr : pool'.mutableKeys[i]? = some r) : l.toKeyBase.Reordered r.toKeyBase := by
    obtain ⟨_, hr', hlr⟩ := forall₂_getElem? h.mutableKeys hl
    rwa [← Option.some_inj.mp (hr'.symm.trans hr)]
  have himmutable {i : ℕ} {l r : ImmutableKey sha256} (hl : pool.immutableKeys[i]? = some l)
      (hr : pool'.immutableKeys[i]? = some r) : l.toKeyBase.Reordered r.toKeyBase := by
    obtain ⟨_, hr', hlr⟩ := forall₂_getElem? h.immutableKeys hl
    rwa [← Option.some_inj.mp (hr'.symm.trans hr)]
  constructor
  · exact h.mutableKeys.length_eq
  · exact h.immutableKeys.length_eq
  · exact fun i l r hl hr ↦ (hmutable hl hr).index
  · intro i l r hl hr path
    exact (MutableKey.use_sameOutcome (hmutable hl hr) path).1
  · exact fun i l r hl hr ↦ (himmutable hl hr).index
  · intro i l r hl hr
    have hlr := himmutable hl hr
    have hdigest := ImmutableKey.digest_eq_of_reordered hlr
    refine ⟨⟨_, digestInput_of_resolves l.resolves, ?_⟩, hdigest, fun hashRange ↦ ?_⟩
    · rw [← hlr.index, ← digestInput_eq hlr.value]
      exact digestInput_of_resolves l.resolves
    · rw [ImmutableKey.hashValue, ImmutableKey.hashValue, hdigest]

theorem reordered_of_run {program program' : List Command}
    (h : List.Forall₂ Command.Reordered program program') (hrun : run sha256 program = some pool) :
    ∃ pool', run sha256 program' = some pool' ∧ pool.Reordered pool' :=
  exec_lockstep Command.Reordered (fun hcommand h _ hstep ↦ h.step hcommand hstep) h ⟨.nil, .nil⟩
    (along_trivial _ _) hrun

/-- **Member order never matters.** At every point of the two runs the same uses succeed, at
elements that differ in the order of members only, and the keys have the same indexes and
digests. -/
theorem runs_agree {program program' : List Command}
    (h : List.Forall₂ Command.Reordered program program') (n : ℕ)
    (hrun : run sha256 (program.take n) = some pool) :
    ∃ pool', run sha256 (program'.take n) = some pool' ∧ pool.Agrees pool' := by
  obtain ⟨pool', hrun', hreordered⟩ := reordered_of_run (List.forall₂_take n h) hrun
  exact ⟨pool', hrun', hreordered.agrees⟩

def configuration : Document :=
  ⟨.object [(ascii "venue", .array [.object [(ascii "type", .string (ascii "ftx")),
      (ascii "port", .int64 443)]]), (ascii "debug", .bool false)],
    by simp [Value.WellFormed, WellFormedMembers, WellFormedElements]; decide⟩

/-- The members the other way round, on both levels. -/
def configurationReordered : Document :=
  ⟨.object [(ascii "debug", .bool false), (ascii "venue", .array [.object
      [(ascii "port", .int64 443), (ascii "type", .string (ascii "ftx"))]])],
    by simp [Value.WellFormed, WellFormedMembers, WellFormedElements]; decide⟩

/-- Calls on a key over the document. -/
def usesOf (original : Document) : List Command :=
  [.newMutable original, .use 0 (ascii "venue/0"), .use 0 (ascii "venue/1"), .fix 0, .mutate 0,
    .use 1 (ascii "debug"), .merge 1 0, .fix 1]

theorem configuration_reordered : configuration.1.Reordered configurationReordered.1 := by
  have hentry : Value.Reordered
      (.object [(ascii "type", .string (ascii "ftx")), (ascii "port", .int64 443)])
      (.object [(ascii "port", .int64 443), (ascii "type", .string (ascii "ftx"))]) :=
    ⟨_, .swap _ _ _, rfl, rfl, rfl, rfl, trivial⟩
  exact ⟨_, .swap _ _ _, rfl, ⟨hentry, trivial⟩, rfl, rfl, trivial⟩

theorem runs_agree_configuration : ∃ pool pool',
    run Sha256Digest.openssl ((usesOf configuration).take 8) = some pool ∧
    run Sha256Digest.openssl ((usesOf configurationReordered).take 8) = some pool' ∧
    pool.Agrees pool' := by
  have hcommands :
      List.Forall₂ Command.Reordered (usesOf configuration) (usesOf configurationReordered) := by
    simp [usesOf, Command.Reordered, configuration_reordered]
  obtain ⟨pool, hrun⟩ : ∃ pool,
      run Sha256Digest.openssl ((usesOf configuration).take 8) = some pool :=
    Option.isSome_iff_exists.mp (by decide +kernel)
  obtain ⟨pool', hrun', hagrees⟩ := runs_agree hcommands 8 hrun
  exact ⟨pool, pool', hrun, hrun', hagrees⟩

end Pool

end Entity

end BoostConnector
