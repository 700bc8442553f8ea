import BoostConnector.Collections.ListPool
import BoostConnector.Entity.KeyEquality

/-!
# Keys and what was used

Over one document, a key stands for a set of used elements. `Uses` is the account of a program that
knows nothing of indexes: for each key, the paths of the uses that found something, taken over where
keys are merged, fixed and mutated. What a path names is said without the code as well, by the
pieces between its slashes (`pieces`), and two spellings of a path differ in additional slashes only
(`Respelled`).

The index of a key is the set of the used paths in their canonical spelling, and as long as the
document holds no NaN the key depends on nothing else: not on the order of the uses, on repetitions,
on the spelling of a path or on the keys the work was split over (`keys_depend_on_uses`).
-/

namespace BoostConnector

namespace Entity

open Collections Json Transition

variable {sha256 : Bytes → Sha256Digest}

/-! ## One document -/

namespace ImmutableKey

/-- Contents without a NaN: a key equals itself. -/
theorem equal_self (self : ImmutableKey sha256) (hnan : self.value.1.NoNaN) :
    self.equal self = .ok true := by
  refine (equal_iff self self).mpr ⟨rfl, sameContents_iff.mpr ⟨rfl, fun path hpath ↦ ?_⟩⟩
  have hresolves := self.resolves path hpath
  refine Value.equal_self (wellFormed_valueAt _ hresolves) ?_
  exact findPathFrom_invariant noNaN_of_subvalue hnan (findPath_eq_valueAt hresolves)

/-- The document and the index determine the key. -/
theorem eq_of_index {l r : ImmutableKey sha256} (hvalue : l.value = r.value)
    (hindex : l.index = r.index) : l = r := by
  have hdigest : l.digest = r.digest := by rw [l.digest_eq, r.digest_eq, hvalue, hindex]
  obtain ⟨⟨_, _⟩, _, _⟩ := l
  obtain ⟨⟨_, _⟩, _, _⟩ := r
  obtain rfl := hvalue
  obtain rfl := hindex
  obtain rfl := hdigest
  rfl

end ImmutableKey

/-- `mutable_key::normalise`. -/
def MutableKey.normalise (path : Bytes) : Bytes := toPath (dissectPath path)

theorem MutableKey.resolves_normalise {v : Value} {path : Bytes} :
    Resolves v (normalise path) ↔ Resolves v path := by
  rw [Resolves, normalise, findPath_toPath_dissectPath]
  rfl

/-- Paths have one normal form when they dissect into the same segments. -/
theorem MutableKey.normalise_eq_iff {path path' : Bytes} :
    normalise path = normalise path' ↔ dissectPath path = dissectPath path' := by
  constructor
  · intro h
    have h' := congrArg dissectPath h
    rwa [normalise, normalise, dissectPath_toPath_dissectPath,
      dissectPath_toPath_dissectPath] at h'
  · intro h
    rw [normalise, normalise, h]

/-- **Normalisation is a retraction onto canonical paths.** Lists of proper segments and canonical
paths are the same thing, and a path has the normal form of its segments. -/
theorem MutableKey.normalise_retraction :
    (∀ segments : List Bytes, (∀ segment ∈ segments, segment ≠ [] ∧ 47 ∉ segment) →
        dissectPath (toPath segments) = segments) ∧
      ∀ path, (∀ segment ∈ dissectPath path, segment ≠ [] ∧ 47 ∉ segment) ∧
        normalise (normalise path) = normalise path ∧
        ∀ path', normalise path = normalise path' ↔ dissectPath path = dissectPath path' := by
  refine ⟨fun segments h ↦ dissectPath_toPath fun segment hmem ↦ segment_iff.mpr (h segment hmem),
    fun path ↦ ⟨fun segment hmem ↦ segment_iff.mp (segment_of_mem_dissectPath hmem), ?_,
      fun path' ↦ normalise_eq_iff⟩⟩
  exact canonical_toPath_dissectPath path

/-! ## What a path names -/

/-- What stands between the slashes of a path. -/
def pieces (path : Bytes) : List Bytes := (path.splitOn 47).filter (· ≠ [])

/-- A slash before each piece, and a lone slash if there is none. -/
def canonical (path : Bytes) : Bytes :=
  if pieces path = [] then [47] else (pieces path).flatMap fun piece ↦ 47 :: piece

theorem pieces_append_slash (p q : Bytes) : pieces (p ++ 47 :: q) = pieces p ++ pieces q := by
  rw [pieces, List.splitOn_append_cons_self, List.filter_append, pieces, pieces]

theorem pieces_of_not_mem {p : Bytes} (hne : p ≠ []) (h : 47 ∉ p) : pieces p = [p] := by
  rw [pieces, List.splitOn_eq_singleton h]
  simp [hne]

/-- **`dissect_path` finds the pieces.** -/
theorem dissectPath_eq_pieces (path : Bytes) : dissectPath path = pieces path := by
  induction path using dissectPath.induct with
  | case1 =>
    rw [dissectPath]
    rfl
  | case2 c rest hc ih =>
    obtain rfl : c = 47 := by simpa [isSep] using hc
    rw [dissectPath, if_pos hc, ih]
    exact (pieces_append_slash [] rest).symm
  | case3 c rest hc ih =>
    obtain ⟨hne, hmem⟩ := segment_iff.mp (segment_untilSep (by simpa using hc) rest)
    have hsplit : untilSep (c :: rest) ++ fromSep (c :: rest) = c :: rest :=
      List.takeWhile_append_dropWhile
    have hpieces := pieces_of_not_mem hne hmem
    have hslash := isSep_head_fromSep (c :: rest)
    rw [dissectPath, if_neg hc, ih]
    -- the first piece ends at the first slash, or with the path
    generalize untilSep (c :: rest) = piece at hsplit hpieces ⊢
    cases hfrom : fromSep (c :: rest) with
    | nil =>
      rw [hfrom, List.append_nil] at hsplit
      rw [← hsplit, hpieces]
      rfl
    | cons d tail =>
      obtain rfl : d = 47 := by simpa [isSep] using hslash d (by simp [hfrom])
      rw [hfrom] at hsplit
      have htail : pieces (47 :: tail) = pieces tail := pieces_append_slash [] tail
      rw [htail, ← hsplit, pieces_append_slash, hpieces, List.singleton_append]

theorem MutableKey.normalise_eq_canonical (path : Bytes) : normalise path = canonical path := by
  have hnil : ((pieces path).flatMap fun piece ↦ 47 :: piece) = [] ↔ pieces path = [] := by
    cases pieces path with
    | nil => simp
    | cons piece rest => simp
  simp only [normalise, toPath, canonical, dissectPath_eq_pieces, hnil]

theorem canonical_eq_iff {path path' : Bytes} :
    canonical path = canonical path' ↔ pieces path = pieces path' := by
  rw [← MutableKey.normalise_eq_canonical, ← MutableKey.normalise_eq_canonical,
    MutableKey.normalise_eq_iff, dissectPath_eq_pieces, dissectPath_eq_pieces]

/-- Slashes are added or left out, at the ends of a path and where there are others. -/
inductive Respelled : Bytes → Bytes → Prop
  | refl (p : Bytes) : Respelled p p
  | leading (p : Bytes) : Respelled p (47 :: p)
  | trailing (p : Bytes) : Respelled p (p ++ [47])
  | doubled (p q : Bytes) : Respelled (p ++ 47 :: q) (p ++ 47 :: 47 :: q)
  | symm {p q : Bytes} (h : Respelled p q) : Respelled q p
  | trans {p q r : Bytes} (h : Respelled p q) (h' : Respelled q r) : Respelled p r

/-- Slashes make no difference to what a path names. -/
theorem Respelled.pieces_eq {p q : Bytes} (h : Respelled p q) : pieces p = pieces q := by
  have hslash (p : Bytes) : pieces (47 :: p) = pieces p := pieces_append_slash [] p
  induction h with
  | refl p => rfl
  | leading p => exact (hslash p).symm
  | trailing p => exact ((pieces_append_slash p []).trans (List.append_nil _)).symm
  | doubled p q => rw [pieces_append_slash, pieces_append_slash, hslash]
  | symm h ih => exact ih.symm
  | trans h h' ih ih' => exact ih.trans ih'

/-! ## Uses -/

namespace MutableKey

/-- A use succeeds on the paths that lead somewhere. -/
theorem use_isOk_iff (self : MutableKey) (path : Bytes) :
    (outcome (use path self)).isOk = true ↔ Resolves self.value.1 path := by
  rw [resolves_iff_isOk, findPath]
  rcases use_cases self path with ⟨ref, hfind, huse⟩ | ⟨e, e', hfind, huse⟩
  · rw [huse, hfind]
    exact Iff.rfl
  · rw [huse, hfind]
    exact Iff.rfl

/-- **A use that throws leaves the key as it was.** -/
theorem after_of_throws {self : MutableKey} {path : Bytes}
    (h : (outcome (use path self)).isOk = false) : after (use path self) = self := by
  rcases use_cases self path with ⟨ref, -, huse⟩ | ⟨e, e', -, huse⟩
  · rw [huse] at h
    exact absurd h (by simp [outcome, Except.isOk, Except.toBool])
  · rw [huse]
    rfl

end MutableKey

/-! ## The account of the uses -/

/-- For each key, the paths of the successful uses that went into it. -/
structure Uses where
  mutableKeys : List (List Bytes) := []
  immutableKeys : List (List Bytes) := []

namespace Uses

def step (document : Document) : Command → Uses → Option Uses
  | .newMutable _, uses => some { uses with mutableKeys := uses.mutableKeys ++ [[]] }
  | .newImmutable _, uses => some { uses with immutableKeys := uses.immutableKeys ++ [[]] }
  | .use i path, uses => uses.mutableKeys[i]?.map fun paths ↦
    if Resolves document.1 path then
      { uses with mutableKeys := uses.mutableKeys.set i (paths ++ [path]) }
    else uses
  | .merge i j, uses => uses.mutableKeys[i]?.bind fun paths ↦
    uses.immutableKeys[j]?.map fun merged ↦
    { uses with mutableKeys := uses.mutableKeys.set i (paths ++ merged) }
  | .fix i, uses => uses.mutableKeys[i]?.map fun paths ↦
    { uses with immutableKeys := uses.immutableKeys ++ [paths] }
  | .mutate j, uses => uses.immutableKeys[j]?.map fun paths ↦
    { uses with mutableKeys := uses.mutableKeys ++ [paths] }

def run (document : Document) (program : List Command) : Option Uses :=
  exec (step document) program {}

end Uses

/-- The key is over the document, and its index is the set of the paths. -/
structure KeyBase.Records (document : Document) (key : KeyBase) (paths : List Bytes) : Prop where
  value : key.value = document
  index : ∀ path, path ∈ key.index ↔ path ∈ paths.map canonical
  resolves : ∀ path ∈ paths, Resolves document.1 path

namespace KeyBase.Records

variable {document : Document} {key : KeyBase} {paths : List Bytes}

theorem empty (document : Document) : KeyBase.Records document ⟨document, ∅⟩ [] :=
  ⟨rfl, fun path ↦ by simp, List.forall_mem_nil _⟩

theorem resolves_index (h : key.Records document paths) :
    ∀ path ∈ key.index, Resolves key.value.1 path := by
  intro path hpath
  obtain ⟨used, hused, rfl⟩ := List.mem_map.mp ((h.index path).mp hpath)
  rw [h.value, ← MutableKey.normalise_eq_canonical, MutableKey.resolves_normalise]
  exact h.resolves used hused

theorem insert (h : key.Records document paths) {path : Bytes}
    (hpath : Resolves document.1 path) :
    KeyBase.Records document { key with index := key.index.insert (MutableKey.normalise path) }
      (paths ++ [path]) where
  value := h.value
  index p := by
    rw [SortedSet.mem_insert, h.index, List.map_append, List.mem_append, or_comm,
      MutableKey.normalise_eq_canonical]
    simp
  resolves := List.forall_mem_append.mpr ⟨h.resolves, List.forall_mem_singleton.mpr hpath⟩

theorem insertMany (h : key.Records document paths) {other : KeyBase} {merged : List Bytes}
    (hother : other.Records document merged) :
    KeyBase.Records document { key with index := key.index.insertMany other.index.toList }
      (paths ++ merged) where
  value := h.value
  index p := by
    rw [SortedSet.mem_insertMany, h.index, List.map_append, List.mem_append]
    exact or_congr_right (hother.index p)
  resolves := List.forall_mem_append.mpr ⟨h.resolves, hother.resolves⟩

end KeyBase.Records

/-! ## Programs over one document -/

/-- New keys are keys over this document. -/
def Command.IsOver (document : Document) : Command → Prop
  | .newMutable original | .newImmutable original => original = document
  | _ => True

namespace Pool

variable {document : Document} {pool pool' : Pool sha256} {uses uses' : Uses}

structure Records (document : Document) (pool : Pool sha256) (uses : Uses) : Prop where
  mutableKeys : List.Forall₂ (fun key paths ↦ key.toKeyBase.Records document paths)
    pool.mutableKeys uses.mutableKeys
  immutableKeys : List.Forall₂ (fun key paths ↦ key.toKeyBase.Records document paths)
    pool.immutableKeys uses.immutableKeys

theorem Records.addMutable (h : pool.Records document uses) {key : MutableKey} {paths : List Bytes}
    (hkey : key.toKeyBase.Records document paths) :
    (pool.addMutable key).Records document
      { uses with mutableKeys := uses.mutableKeys ++ [paths] } where
  mutableKeys := forall₂_concat h.mutableKeys hkey
  immutableKeys := h.immutableKeys

theorem Records.setMutable (h : pool.Records document uses) (i : ℕ) {key : MutableKey}
    {paths : List Bytes} (hkey : key.toKeyBase.Records document paths) :
    (pool.setMutable i key).Records document
      { uses with mutableKeys := uses.mutableKeys.set i paths } where
  mutableKeys := forall₂_set h.mutableKeys i hkey
  immutableKeys := h.immutableKeys

theorem setMutable_self {i : ℕ} {key : MutableKey} (h : pool.mutableKeys[i]? = some key) :
    pool.setMutable i key = pool := by
  obtain ⟨hlt, rfl⟩ := List.getElem?_eq_some_iff.mp h
  rw [setMutable, List.set_getElem_self]

/-- The constructor of an immutable key gets through. -/
theorem Records.addMake (h : pool.Records document uses) {original : Document} {idx : PathSet}
    {paths : List Bytes} (hkey : KeyBase.Records document ⟨original, idx⟩ paths) :
    (pool.addImmutable (ImmutableKey.make sha256 original idx)).Records document
      { uses with immutableKeys := uses.immutableKeys ++ [paths] } := by
  rw [ImmutableKey.make_of_resolves hkey.resolves_index]
  exact ⟨h.mutableKeys, forall₂_concat h.immutableKeys hkey⟩

/-- **One call** on both sides. -/
theorem Records.step (h : pool.Records document uses) {command : Command}
    (hover : command.IsOver document) (hstep : step command pool = some pool') :
    ∃ uses', Uses.step document command uses = some uses' ∧ pool'.Records document uses' := by
  cases command with
  | newMutable original =>
    obtain rfl := Option.some_inj.mp hstep
    obtain rfl : original = document := hover
    exact ⟨_, rfl, h.addMutable (KeyBase.Records.empty original)⟩
  | newImmutable original =>
    obtain rfl := Option.some_inj.mp hstep
    obtain rfl : original = document := hover
    exact ⟨_, rfl, h.addMake (KeyBase.Records.empty original)⟩
  | use i path =>
    obtain ⟨self, hself, rfl⟩ := Option.map_eq_some_iff.mp hstep
    obtain ⟨paths, hpaths, hkey⟩ := forall₂_getElem? h.mutableKeys hself
    refine ⟨_, Option.map_eq_some_iff.mpr ⟨paths, hpaths, rfl⟩, ?_⟩
    have hisOk := self.use_isOk_iff path
    rw [hkey.value] at hisOk
    rcases MutableKey.use_cases self path with ⟨ref, -, huse⟩ | ⟨e, e', -, huse⟩
    · have hresolves := hisOk.mp (by rw [huse]; rfl)
      rw [if_pos hresolves, huse]
      exact h.setMutable i (hkey.insert hresolves)
    · have hthrows : ¬(MutableKey.outcome (MutableKey.use path self)).isOk = true := by
        rw [huse]
        exact Bool.false_ne_true
      rw [if_neg (mt hisOk.mpr hthrows), huse]
      exact (setMutable_self hself).symm ▸ h
  | merge i j =>
    obtain ⟨self, hself, hset⟩ := Option.bind_eq_some_iff.mp hstep
    obtain ⟨other, hother, rfl⟩ := Option.map_eq_some_iff.mp hset
    obtain ⟨paths, hpaths, hkey⟩ := forall₂_getElem? h.mutableKeys hself
    obtain ⟨merged, hmerged, hotherKey⟩ := forall₂_getElem? h.immutableKeys hother
    refine ⟨_, ?_, h.setMutable i (hkey.insertMany hotherKey)⟩
    rw [Uses.step, hpaths, hmerged]
    rfl
  | fix i =>
    obtain ⟨self, hself, rfl⟩ := Option.map_eq_some_iff.mp hstep
    obtain ⟨paths, hpaths, hkey⟩ := forall₂_getElem? h.mutableKeys hself
    exact ⟨_, Option.map_eq_some_iff.mpr ⟨paths, hpaths, rfl⟩, h.addMake hkey⟩
  | mutate j =>
    obtain ⟨self, hself, rfl⟩ := Option.map_eq_some_iff.mp hstep
    obtain ⟨paths, hpaths, hkey⟩ := forall₂_getElem? h.immutableKeys hself
    exact ⟨_, Option.map_eq_some_iff.mpr ⟨paths, hpaths, rfl⟩, h.addMutable hkey⟩

theorem records_of_run {program : List Command}
    (hover : ∀ command ∈ program, command.IsOver document)
    (hrun : run sha256 program = some pool) :
    ∃ uses, Uses.run document program = some uses ∧ pool.Records document uses := by
  refine exec_lockstep Eq (C := fun command _ ↦ command.IsOver document)
    (fun hab h hC hstep ↦ ?_) (List.forall₂_refl program) ⟨.nil, .nil⟩ ?_ hrun
  · subst hab
    exact h.step hC hstep
  · exact along_of_forall fun before command after _ heq _ ↦ hover command (by simp [heq])

/-! ## Keys and their uses -/

/-- What the account says of the keys of one program. -/
structure FollowsUses (document : Document) (pool : Pool sha256) (uses : Uses) : Prop where
  /-- A use succeeds if the path leads somewhere, which is what the account counts. -/
  useSucceeds : ∀ key ∈ pool.mutableKeys, ∀ path,
    (MutableKey.outcome (MutableKey.use path key)).isOk = true ↔ Resolves document.1 path
  useThrows : ∀ (i : ℕ) key path, pool.mutableKeys[i]? = some key →
    (MutableKey.outcome (MutableKey.use path key)).isOk = false →
      MutableKey.after (MutableKey.use path key) = key ∧ step (.use i path) pool = some pool
  mutableIndex : ∀ (i : ℕ) (key : MutableKey), pool.mutableKeys[i]? = some key →
    ∃ paths : List Bytes, uses.mutableKeys[i]? = some paths ∧
      ∀ path, path ∈ key.index ↔ path ∈ paths.map canonical
  immutableIndex : ∀ (i : ℕ) (key : ImmutableKey sha256), pool.immutableKeys[i]? = some key →
    ∃ paths : List Bytes, uses.immutableKeys[i]? = some paths ∧
      ∀ path, path ∈ key.index ↔ path ∈ paths.map canonical
  fix : ∀ key ∈ pool.mutableKeys, (key.fix sha256).isOk = true

/-- The paths name the same, however often and in whatever order. -/
def SameUses (l r : List Bytes) : Prop :=
  ∀ named, named ∈ l.map pieces ↔ named ∈ r.map pieces

theorem sameUses_iff {l r : List Bytes} :
    SameUses l r ↔ ∀ path, path ∈ l.map canonical ↔ path ∈ r.map canonical := by
  have hmem (path : Bytes) (l : List Bytes) :
      canonical path ∈ l.map canonical ↔ pieces path ∈ l.map pieces := by
    simp only [List.mem_map, canonical_eq_iff]
  constructor
  · intro h path
    constructor
    · intro hpath
      obtain ⟨p, hp, rfl⟩ := List.mem_map.mp hpath
      exact (hmem p r).mpr ((h _).mp (List.mem_map_of_mem hp))
    · intro hpath
      obtain ⟨p, hp, rfl⟩ := List.mem_map.mp hpath
      exact (hmem p l).mpr ((h _).mpr (List.mem_map_of_mem hp))
  · intro h named
    constructor
    · intro hnamed
      obtain ⟨p, hp, rfl⟩ := List.mem_map.mp hnamed
      exact (hmem p r).mp ((h _).mp (List.mem_map_of_mem hp))
    · intro hnamed
      obtain ⟨p, hp, rfl⟩ := List.mem_map.mp hnamed
      exact (hmem p l).mp ((h _).mpr (List.mem_map_of_mem hp))

/-- Each path of either list has its like in the other, with slashes added or left out. -/
def Respellings (l r : List Bytes) : Prop :=
  (∀ p ∈ l, ∃ q ∈ r, Respelled p q) ∧ ∀ q ∈ r, ∃ p ∈ l, Respelled p q

theorem Respellings.sameUses {l r : List Bytes} (h : Respellings l r) : SameUses l r := by
  intro named
  constructor
  · intro hnamed
    obtain ⟨p, hp, rfl⟩ := List.mem_map.mp hnamed
    obtain ⟨q, hq, hpq⟩ := h.1 p hp
    exact hpq.pieces_eq ▸ List.mem_map_of_mem hq
  · intro hnamed
    obtain ⟨q, hq, rfl⟩ := List.mem_map.mp hnamed
    obtain ⟨p, hp, hpq⟩ := h.2 q hq
    exact hpq.pieces_eq ▸ List.mem_map_of_mem hp

/-- Fixed keys of two programs, compared by what was used. -/
def DependsOnUses (pool : Pool sha256) (uses : Uses) (pool' : Pool sha256) (uses' : Uses) : Prop :=
  ∀ (i j : ℕ) (l r : ImmutableKey sha256) (paths paths' : List Bytes),
    pool.immutableKeys[i]? = some l → pool'.immutableKeys[j]? = some r →
    uses.immutableKeys[i]? = some paths → uses'.immutableKeys[j]? = some paths' →
      (l.equal r).isOk = true ∧ (l.equal r = .ok true ↔ SameUses paths paths') ∧
        (SameUses paths paths' → l.digest = r.digest ∧
          ∀ hashRange, l.hashValue hashRange = r.hashValue hashRange) ∧
        (Respellings paths paths' → l.equal r = .ok true)

theorem Records.followsUses (h : pool.Records document uses) : pool.FollowsUses document uses where
  useSucceeds key hkey path := by
    obtain ⟨i, hi⟩ := List.mem_iff_getElem?.mp hkey
    obtain ⟨paths, -, hrecords⟩ := forall₂_getElem? h.mutableKeys hi
    rw [key.use_isOk_iff, hrecords.value]
  useThrows i key path hkey hthrows := by
    have hafter := MutableKey.after_of_throws hthrows
    refine ⟨hafter, ?_⟩
    rw [Pool.step, hkey, Option.map_some, hafter, setMutable_self hkey]
  mutableIndex i key hkey := by
    obtain ⟨paths, hpaths, hrecords⟩ := forall₂_getElem? h.mutableKeys hkey
    exact ⟨paths, hpaths, hrecords.index⟩
  immutableIndex i key hkey := by
    obtain ⟨paths, hpaths, hrecords⟩ := forall₂_getElem? h.immutableKeys hkey
    exact ⟨paths, hpaths, hrecords.index⟩
  fix key hkey := by
    obtain ⟨i, hi⟩ := List.mem_iff_getElem?.mp hkey
    obtain ⟨paths, -, hrecords⟩ := forall₂_getElem? h.mutableKeys hi
    rw [MutableKey.fix, ImmutableKey.make_of_resolves hrecords.resolves_index]
    rfl

theorem Records.immutableKey (h : pool.Records document uses) {i : ℕ} {key : ImmutableKey sha256}
    {paths : List Bytes} (hkey : pool.immutableKeys[i]? = some key)
    (hpaths : uses.immutableKeys[i]? = some paths) : key.toKeyBase.Records document paths := by
  obtain ⟨recorded, hrecorded, hrecords⟩ := forall₂_getElem? h.immutableKeys hkey
  rwa [← Option.some_inj.mp (hrecorded.symm.trans hpaths)]

theorem Records.dependsOnUses (h : pool.Records document uses) (h' : pool'.Records document uses')
    (hnan : document.1.NoNaN) : pool.DependsOnUses uses pool' uses' := by
  intro i j l r paths paths' hl hr hpaths hpaths'
  have hlrecords := h.immutableKey hl hpaths
  have hrrecords := h'.immutableKey hr hpaths'
  -- the same uses make the same key
  have hsame (huses : SameUses paths paths') : l = r := by
    refine ImmutableKey.eq_of_index (hlrecords.value.trans hrrecords.value.symm) ?_
    refine SortedSet.ext fun path ↦ ?_
    rw [hlrecords.index, hrrecords.index]
    exact sameUses_iff.mp huses path
  have hequals (huses : SameUses paths paths') : l.equal r = .ok true := by
    obtain rfl := hsame huses
    exact l.equal_self (hlrecords.value ▸ hnan)
  refine ⟨l.equal_isOk r, ⟨fun hequal ↦ sameUses_iff.mpr fun path ↦ ?_, hequals⟩, fun huses ↦ ?_,
    fun hspelled ↦ hequals hspelled.sameUses⟩
  · have hcontents := ((ImmutableKey.equal_iff l r).mp hequal).2
    rw [← hlrecords.index, ← hrrecords.index]
    exact hcontents.1 path
  · obtain rfl := hsame huses
    exact ⟨rfl, fun _ ↦ rfl⟩

/-- **A key depends on what was used**, and not on how. -/
theorem keys_depend_on_uses (hnan : document.1.NoNaN) {program program' : List Command}
    (hover : ∀ command ∈ program, command.IsOver document)
    (hover' : ∀ command ∈ program', command.IsOver document)
    (hrun : run sha256 program = some pool) (hrun' : run sha256 program' = some pool') :
    ∃ uses uses', Uses.run document program = some uses ∧ Uses.run document program' = some uses' ∧
      pool.FollowsUses document uses ∧ pool'.FollowsUses document uses' ∧
      pool.DependsOnUses uses pool' uses' := by
  obtain ⟨uses, huses, hrecords⟩ := records_of_run hover hrun
  obtain ⟨uses', huses', hrecords'⟩ := records_of_run hover' hrun'
  exact ⟨uses, uses', huses, huses', hrecords.followsUses, hrecords'.followsUses,
    hrecords.dependsOnUses hrecords' hnan⟩

def venueDocument : Document :=
  ⟨.object [(ascii "venue", .object [(ascii "type", .string (ascii "ftx"))])],
    wellFormed_member (wellFormed_member trivial)⟩

def usedInOneKey : List Command :=
  [.newMutable venueDocument, .use 0 (ascii "venue/type"), .use 0 (ascii "venue"), .fix 0]

/-- The same elements, spelled otherwise and used in two keys that are merged. -/
def usedInMergedKeys : List Command :=
  [.newImmutable venueDocument, .mutate 0, .use 0 (ascii "/venue/"), .use 0 (ascii "venue/key"),
    .fix 0, .mutate 0, .use 1 (ascii "//venue//type"), .merge 1 1, .fix 1, .mutate 2, .fix 2]

theorem respellings_merged : Respellings [ascii "venue/type", ascii "venue"]
    [ascii "//venue//type", ascii "/venue/"] := by
  have htype : Respelled (ascii "venue/type") (ascii "//venue//type") :=
    (Respelled.doubled (ascii "venue") (ascii "type")).trans
      ((Respelled.leading _).trans (.leading _))
  have hvenue : Respelled (ascii "venue") (ascii "/venue/") :=
    (Respelled.leading _).trans (.trailing _)
  simp [Respellings, htype, hvenue]

/-- The one key and the merged one are equal. -/
theorem keys_depend_on_uses_merged : ∃ pool pool',
    run Sha256Digest.openssl usedInOneKey = some pool ∧
    run Sha256Digest.openssl usedInMergedKeys = some pool' ∧
    (∃ uses uses', Uses.run venueDocument usedInOneKey = some uses ∧
      Uses.run venueDocument usedInMergedKeys = some uses' ∧
      pool.FollowsUses venueDocument uses ∧ pool'.FollowsUses venueDocument uses') ∧
    ∃ l r, pool.immutableKeys[0]? = some l ∧ pool'.immutableKeys[3]? = some r ∧
      l.equal r = .ok true ∧ l.digest = r.digest := by
  have hl : ((run Sha256Digest.openssl usedInOneKey).bind (·.immutableKeys[0]?)).isSome = true := by
    decide +kernel
  have hr : ((run Sha256Digest.openssl usedInMergedKeys).bind
      (·.immutableKeys[3]?)).isSome = true := by decide +kernel
  obtain ⟨l, hl⟩ := Option.isSome_iff_exists.mp hl
  obtain ⟨r, hr⟩ := Option.isSome_iff_exists.mp hr
  obtain ⟨pool, hrun, hl⟩ := Option.bind_eq_some_iff.mp hl
  obtain ⟨pool', hrun', hr⟩ := Option.bind_eq_some_iff.mp hr
  have hnan : venueDocument.1.NoNaN := by simp [venueDocument, Value.NoNaN, NoNaNMembers]
  have hover : ∀ command ∈ usedInOneKey, command.IsOver venueDocument := by
    simp [usedInOneKey, Command.IsOver]
  have hover' : ∀ command ∈ usedInMergedKeys, command.IsOver venueDocument := by
    simp [usedInMergedKeys, Command.IsOver]
  obtain ⟨uses, uses', huses, huses', hfollows, hfollows', hdepends⟩ :=
    keys_depend_on_uses hnan hover hover' hrun hrun'
  have hpaths : uses.immutableKeys[0]? = some [ascii "venue/type", ascii "venue"] := by
    have haccount : (Uses.run venueDocument usedInOneKey).map (·.immutableKeys[0]?)
        = some (some [ascii "venue/type", ascii "venue"]) := by decide +kernel
    rw [huses] at haccount
    exact Option.some_inj.mp haccount
  have hpaths' : uses'.immutableKeys[3]? = some [ascii "//venue//type", ascii "/venue/"] := by
    have haccount : (Uses.run venueDocument usedInMergedKeys).map (·.immutableKeys[3]?)
        = some (some [ascii "//venue//type", ascii "/venue/"]) := by decide +kernel
    rw [huses'] at haccount
    exact Option.some_inj.mp haccount
  obtain ⟨-, -, hdigest, hequal⟩ := hdepends 0 3 l r _ _ hl hr hpaths hpaths'
  exact ⟨pool, pool', hrun, hrun', ⟨uses, uses', huses, huses', hfollows, hfollows'⟩, l, r, hl, hr,
    hequal respellings_merged, (hdigest respellings_merged.sameUses).1⟩

end Pool

end Entity

end BoostConnector
