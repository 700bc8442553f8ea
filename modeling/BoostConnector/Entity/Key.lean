import BoostConnector.Collections.SortedSet
import BoostConnector.Hash.Sha256
import BoostConnector.Json.Digest
import BoostConnector.Json.Path

/-!
# Configuration keys

A key is a JSON document together with the index of its used elements, a set of canonical paths.
A mutable key records what is used of its document; fixing it gives an immutable key, which carries
the SHA-256 digest of the indexed paths and values and serves as a cache key.

The digest of an immutable key is computed by its constructor and never changes, so the fact that it
is the digest of the contents is a field of the key. OpenSSL's SHA-256 is a parameter, a function of
all the bytes passed to `SHA256_Update`; `openssl` is the instance that computes it.

Every member function that reads the index through `find_path` lets its exception out.
-/

namespace BoostConnector

namespace Entity

open Collections Json

/-! ## Digests -/

structure Sha256Digest where
  data : Vector UInt8 32
  deriving DecidableEq

namespace Sha256Digest

/-- `hash_value` of a digest, in terms of `boost::hash_range` over its bytes. -/
def hashValue (hashRange : Bytes → UInt64) (self : Sha256Digest) : UInt64 :=
  hashRange self.data.toList

/-- The digest OpenSSL computes. -/
def openssl (input : Bytes) : Sha256Digest :=
  ⟨⟨(Sha256.hash input).toArray, by rw [List.size_toArray, Sha256.length_hash]⟩⟩

end Sha256Digest

/-! ## Keys -/

/-- What a `std::shared_ptr<json::value const>` points to: a value that Boost.JSON can hold. -/
abbrev Document := {v : Value // v.WellFormed}

abbrev PathSet := SortedSet Bytes

structure KeyBase where
  value : Document
  /-- Index of used values in the value. -/
  index : PathSet

structure MutableKey extends KeyBase

/-- The input of the digest: each indexed path followed by the value found there. -/
def digestInput (value : Value) : List Bytes → Except Exception Bytes
  | [] => .ok []
  | path :: paths =>
    match findPath value path with
    | .ok v => (digestInput value paths).map fun bytes ↦ path ++ updateSha256 v ++ bytes
    | .error e => .error e

variable (sha256 : Bytes → Sha256Digest)

structure ImmutableKey extends KeyBase where
  digest : Sha256Digest
  /-- The constructor got through, and this is what it computed. -/
  digested : (digestInput value.1 index.toList).map sha256 = .ok digest

variable {sha256}

/-! ## Operations -/

namespace ImmutableKey

variable (sha256) in
/-- The constructor of `immutable_key`. -/
def make (original : Document) (idx : PathSet) : Except Exception (ImmutableKey sha256) :=
  match h : digestInput original.1 idx.toList with
  | .ok input => .ok
    { value := original
      index := idx
      digest := sha256 input
      digested := by rw [h]; rfl }
  | .error e => .error e

def mutate (self : ImmutableKey sha256) : MutableKey := ⟨self.toKeyBase⟩

/-- The loop of `equal_contents`, on what is left of the two indexes. -/
def equalContentsFrom (l r : Value) : List Bytes → List Bytes → Except Exception Bool
  | lk :: ls, rk :: rs =>
    if lk ≠ rk then .ok false
    else match findPath l lk, findPath r rk with
      | .ok lv, .ok rv => if lv.equal rv then equalContentsFrom l r ls rs else .ok false
      | .error e, _ => .error e
      | .ok _, .error e => .error e
  | _, _ => .ok true

def equalContents (l r : ImmutableKey sha256) : Except Exception Bool :=
  if l.index.toList.length ≠ r.index.toList.length then .ok false
  else equalContentsFrom l.value.1 r.value.1 l.index.toList r.index.toList

/-- `operator==`. -/
def equal (l r : ImmutableKey sha256) : Except Exception Bool :=
  if l.digest = r.digest then equalContents l r else .ok false

def hashValue (hashRange : Bytes → UInt64) (self : ImmutableKey sha256) : UInt64 :=
  self.digest.hashValue hashRange

end ImmutableKey

namespace MutableKey

/-- What is done to the key before an exception stays done. -/
def use (path : Bytes) : EStateM Exception MutableKey Value := do
  try
    let dissected := dissectPath path
    let self ← get
    let ref ← ofExcept (findSegments self.value.1 dissected)
    modify fun self ↦ { self with index := self.index.insert (toPath dissected) }
    pure ref
  catch e => throw (.nestedInvalidArgument (ascii "mutable_key::use: " ++ path) e)

/-- What a call returns or throws. -/
def outcome : EStateM.Result Exception MutableKey Value → Except Exception Value
  | .ok ref _ => .ok ref
  | .error e _ => .error e

/-- The key that a call leaves behind, whether it returns or throws. -/
def after : EStateM.Result Exception MutableKey Value → MutableKey
  | .ok _ self | .error _ self => self

/-- The paths of the other key are taken over as they are. -/
def merge (self : MutableKey) (other : ImmutableKey sha256) : MutableKey :=
  { self with index := self.index.insertMany other.index.toList }

variable (sha256) in
def fix (self : MutableKey) : Except Exception (ImmutableKey sha256) :=
  ImmutableKey.make sha256 self.value self.index

end MutableKey

namespace KeyBase

/-- The loop of `operator<<`; `serialize` is the output operator of `json::value`. -/
def printFrom (serialize : Value → Bytes) (value : Value) (sep : Bytes) :
    List Bytes → Except Exception Bytes
  | [] => .ok []
  | path :: paths =>
    match findPath value path with
    | .ok v => (printFrom serialize value (ascii ", ") paths).map fun out ↦
        sep ++ streamed path ++ ascii "=" ++ serialize v ++ out
    | .error e => .error e

/-- `operator<<`. -/
def print (serialize : Value → Bytes) (self : KeyBase) : Except Exception Bytes :=
  printFrom serialize self.value.1 [] self.index.toList

end KeyBase

/-! ## Resolving indexes -/

/-- The value a resolving path leads to. -/
def valueAt (v : Value) (path : Bytes) : Value :=
  match findPath v path with
  | .ok w => w
  | .error _ => .null

theorem findPath_eq_valueAt {v : Value} {path : Bytes} (h : Resolves v path) :
    findPath v path = .ok (valueAt v path) := by
  obtain ⟨w, hw⟩ := h
  rw [valueAt, hw]

theorem digestInput_of_resolves {v : Value} {paths : List Bytes}
    (h : ∀ path ∈ paths, Resolves v path) :
    digestInput v paths = .ok (paths.flatMap fun path ↦ path ++ updateSha256 (valueAt v path)) := by
  induction paths with
  | nil => rfl
  | cons path paths ih =>
    obtain ⟨hpath, hpaths⟩ := List.forall_mem_cons.mp h
    rw [digestInput, findPath_eq_valueAt hpath, ih hpaths, List.flatMap_cons]
    rfl

theorem resolves_of_digestInput {v : Value} {paths : List Bytes} {bytes : Bytes}
    (h : digestInput v paths = .ok bytes) : ∀ path ∈ paths, Resolves v path := by
  induction paths generalizing bytes with
  | nil => simp
  | cons path paths ih =>
    rw [digestInput] at h
    cases hpath : findPath v path with
    | error e => simp [hpath] at h
    | ok w =>
      cases hpaths : digestInput v paths with
      | error e => simp [hpath, hpaths, Except.map] at h
      | ok rest => exact List.forall_mem_cons.mpr ⟨⟨w, hpath⟩, ih hpaths⟩

theorem printFrom_isOk {v : Value} {paths : List Bytes} (h : ∀ path ∈ paths, Resolves v path)
    (serialize : Value → Bytes) (sep : Bytes) :
    (KeyBase.printFrom serialize v sep paths).isOk = true := by
  induction paths generalizing sep with
  | nil => rfl
  | cons path paths ih =>
    obtain ⟨hpath, hpaths⟩ := List.forall_mem_cons.mp h
    have hrest := ih hpaths (ascii ", ")
    rw [KeyBase.printFrom, findPath_eq_valueAt hpath]
    cases hprint : KeyBase.printFrom serialize v (ascii ", ") paths with
    | error e => rw [hprint] at hrest; exact hrest
    | ok out => rfl

namespace ImmutableKey

/-- The constructor let no path through that does not resolve. -/
theorem resolves (self : ImmutableKey sha256) :
    ∀ path ∈ self.index, Resolves self.value.1 path := by
  have h := self.digested
  cases hinput : digestInput self.value.1 self.index.toList with
  | error e => simp [hinput, Except.map] at h
  | ok input => exact resolves_of_digestInput hinput

theorem digest_eq (self : ImmutableKey sha256) :
    self.digest = sha256 (self.index.toList.flatMap fun path ↦
      path ++ updateSha256 (valueAt self.value.1 path)) := by
  have h := self.digested
  rw [digestInput_of_resolves self.resolves] at h
  exact (Except.ok.inj h).symm

theorem equalContentsFrom_cons {l r : Value} {lk rk : Bytes} (hl : Resolves l lk)
    (hr : Resolves r rk) (ls rs : List Bytes) :
    equalContentsFrom l r (lk :: ls) (rk :: rs) =
      if lk ≠ rk then .ok false
      else if (valueAt l lk).equal (valueAt r rk) then equalContentsFrom l r ls rs
      else .ok false := by
  rw [equalContentsFrom, findPath_eq_valueAt hl, findPath_eq_valueAt hr]

theorem equalContentsFrom_isOk {l r : Value} {ls rs : List Bytes}
    (hl : ∀ path ∈ ls, Resolves l path)
    (hr : ∀ path ∈ rs, Resolves r path) : (equalContentsFrom l r ls rs).isOk = true := by
  induction ls generalizing rs with
  | nil => rfl
  | cons lk ls ih =>
    cases rs with
    | nil => rfl
    | cons rk rs =>
      obtain ⟨hlk, hls⟩ := List.forall_mem_cons.mp hl
      obtain ⟨hrk, hrs⟩ := List.forall_mem_cons.mp hr
      rw [equalContentsFrom_cons hlk hrk]
      split_ifs
      · rfl
      · exact ih hls hrs
      · rfl

theorem equal_isOk (l r : ImmutableKey sha256) : (l.equal r).isOk = true := by
  rw [equal]
  split_ifs
  · rw [equalContents]
    split_ifs
    · rfl
    · exact equalContentsFrom_isOk l.resolves r.resolves
  · rfl

variable (sha256) in
/-- The immutable key over an index that resolves. -/
def ofResolves (original : Document) (idx : PathSet) (h : ∀ path ∈ idx, Resolves original.1 path) :
    ImmutableKey sha256 where
  value := original
  index := idx
  digest := sha256 (idx.toList.flatMap fun path ↦ path ++ updateSha256 (valueAt original.1 path))
  digested := by rw [digestInput_of_resolves h]; rfl

theorem make_of_resolves {original : Document} {idx : PathSet}
    (h : ∀ path ∈ idx, Resolves original.1 path) :
    make sha256 original idx = .ok (ofResolves sha256 original idx h) := by
  have hinput := digestInput_of_resolves h
  rw [make]
  split
  · next input hok =>
    obtain rfl := Except.ok.inj (hok.symm.trans hinput)
    rfl
  · next e herror => exact absurd (herror.symm.trans hinput) nofun

theorem toKeyBase_of_make {original : Document} {idx : PathSet} {key : ImmutableKey sha256}
    (h : make sha256 original idx = .ok key) : key.toKeyBase = ⟨original, idx⟩ := by
  rw [make] at h
  split at h
  · rw [← Except.ok.inj h]
  · exact absurd h nofun

end ImmutableKey

end Entity

end BoostConnector
