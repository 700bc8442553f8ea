import BoostConnector.Entity.KeyPool

/-!
# Equality of immutable keys

`operator==` compares the digests first and then the contents: the indexes, and for every indexed
path the two values found, as Boost.JSON compares them. The comparison of the digests is meant to be
a shortcut, so that equality of keys is equality of contents, and equal contents hash alike.

It falls short of that in one case. The digest takes a double by its bits, and the two zeros are
equal doubles with different bits. Keys with equal contents have one digest exactly when no zero of
the one stands against the zero of the other sign, and on all other keys the digest decides nothing.
-/

namespace BoostConnector

namespace Json

/-! ## Values found in a document -/

theorem noNaN_of_subvalue {v w : Value} {name : Bytes} (hv : v.NoNaN)
    (h : subvalue v name = .ok w) : w.NoNaN := by
  rcases child_of_subvalue h with ⟨o, rfl, hmem⟩ | ⟨a, rfl, hmem⟩
  · exact noNaN_object.mp hv _ hmem
  · exact noNaN_array.mp hv w hmem

end Json

namespace Entity

open Collections Json

variable {sha256 : Bytes → Sha256Digest}

theorem wellFormed_valueAt (document : Document) {path : Bytes} (h : Resolves document.1 path) :
    (valueAt document.1 path).WellFormed :=
  findPathFrom_invariant wellFormed_of_subvalue document.2 (findPath_eq_valueAt h)

namespace ImmutableKey

/-! ## Contents -/

/-- The two indexes are the same set, and the values found at every indexed path are equal. -/
def SameContents (l r : ImmutableKey sha256) : Prop :=
  (∀ path, path ∈ l.index ↔ path ∈ r.index) ∧
    ∀ path ∈ l.index, ∀ v w, findPath l.value.1 path = .ok v → findPath r.value.1 path = .ok w →
      v.equal w = true

/-- No zero found through the index of the one key stands against the zero of opposite sign in the
document of the other. -/
def ZerosAgree (l r : ImmutableKey sha256) : Prop :=
  ∀ path ∈ l.index, ∀ v w, findPath l.value.1 path = .ok v → findPath r.value.1 path = .ok w →
    v.zerosAgree w = true

theorem sameContents_iff {l r : ImmutableKey sha256} :
    SameContents l r ↔ l.index = r.index ∧
      ∀ path ∈ l.index, (valueAt l.value.1 path).equal (valueAt r.value.1 path) = true := by
  constructor
  · rintro ⟨hindex, hvalues⟩
    have heq := SortedSet.ext hindex
    refine ⟨heq, fun path hpath ↦ hvalues path hpath _ _ ?_ ?_⟩
    · exact findPath_eq_valueAt (l.resolves path hpath)
    · exact findPath_eq_valueAt (r.resolves path (heq ▸ hpath))
  · rintro ⟨heq, hvalues⟩
    refine ⟨fun path ↦ by rw [heq], fun path hpath v w hv hw ↦ ?_⟩
    have h := hvalues path hpath
    rwa [valueAt, valueAt, hv, hw] at h

theorem zerosAgree_iff {l r : ImmutableKey sha256} (hindex : l.index = r.index) :
    ZerosAgree l r ↔
      ∀ path ∈ l.index, (valueAt l.value.1 path).zerosAgree (valueAt r.value.1 path) = true := by
  constructor
  · intro h path hpath
    exact h path hpath _ _ (findPath_eq_valueAt (l.resolves path hpath))
      (findPath_eq_valueAt (r.resolves path (hindex ▸ hpath)))
  · intro h path hpath v w hv hw
    have hzeros := h path hpath
    rwa [valueAt, valueAt, hv, hw] at hzeros

/-! ## The two comparisons -/

theorem equalContentsFrom_iff {l r : Value} {ls rs : List Bytes}
    (hl : ∀ path ∈ ls, Resolves l path) (hr : ∀ path ∈ rs, Resolves r path)
    (hlen : ls.length = rs.length) :
    equalContentsFrom l r ls rs = .ok true ↔
      ls = rs ∧ ∀ path ∈ ls, (valueAt l path).equal (valueAt r path) = true := by
  induction ls generalizing rs with
  | nil =>
    obtain rfl := List.length_eq_zero_iff.mp hlen.symm
    simp [equalContentsFrom]
  | cons lk ls ih =>
    obtain ⟨rk, rs, rfl⟩ := List.exists_cons_of_length_eq_add_one hlen.symm
    obtain ⟨hlk, hls⟩ := List.forall_mem_cons.mp hl
    obtain ⟨hrk, hrs⟩ := List.forall_mem_cons.mp hr
    rw [equalContentsFrom_cons hlk hrk, List.forall_mem_cons]
    split_ifs with hkey hvalue
    · simp [hkey]
    · obtain rfl := not_not.mp hkey
      rw [ih hls hrs (by simpa using hlen)]
      simp [hvalue]
    · obtain rfl := not_not.mp hkey
      simp [hvalue]

theorem equalContents_iff (l r : ImmutableKey sha256) :
    equalContents l r = .ok true ↔ SameContents l r := by
  rw [equalContents, sameContents_iff]
  split_ifs with hlen
  · refine iff_of_false (by simp) fun h ↦ hlen ?_
    rw [h.1]
  · rw [equalContentsFrom_iff l.resolves r.resolves (not_not.mp hlen)]
    exact and_congr_left' ⟨SortedSet.toList_injective, congrArg SortedSet.toList⟩

/-- All the bytes the constructor passes to SHA-256. -/
def contents (self : ImmutableKey sha256) : Bytes :=
  self.index.toList.flatMap fun path ↦ path ++ updateSha256 (valueAt self.value.1 path)

/-- Equal contents are the same input of the digest exactly when their zeros agree. -/
theorem contents_eq_iff {l r : ImmutableKey sha256} (h : SameContents l r) :
    l.contents = r.contents ↔ ZerosAgree l r := by
  obtain ⟨hindex, hvalues⟩ := sameContents_iff.mp h
  have haligned : ∀ path ∈ l.index,
      Aligned (valueAt l.value.1 path) (valueAt r.value.1 path) := fun path hpath ↦
    aligned_of_equal (wellFormed_valueAt _ (l.resolves path hpath))
      (wellFormed_valueAt _ (r.resolves path (hindex ▸ hpath))) (hvalues path hpath)
  rw [contents, contents, ← hindex, zerosAgree_iff hindex, flatMap_eq_flatMap_iff]
  · refine forall₂_congr fun path hpath ↦ ?_
    rw [List.append_cancel_left_eq]
    exact (haligned path hpath).2
  · intro path hpath
    rw [List.length_append, List.length_append, (haligned path hpath).1]

/-! ## Equality of keys -/

/-- Equality of keys is equality of contents, and equal contents have one hash. -/
def ContentEquality (hashRange : Bytes → UInt64) (l r : ImmutableKey sha256) : Prop :=
  (l.equal r = .ok true ↔ SameContents l r) ∧
    (SameContents l r → l.hashValue hashRange = r.hashValue hashRange)

theorem equal_iff (l r : ImmutableKey sha256) :
    l.equal r = .ok true ↔ l.digest = r.digest ∧ SameContents l r := by
  rw [equal, ← equalContents_iff]
  split_ifs with h <;> simp [h]

/-- As long as zeros agree, keys with equal contents have one digest. -/
theorem digest_eq_of_zerosAgree {l r : ImmutableKey sha256} (h : SameContents l r)
    (hzeros : ZerosAgree l r) : l.digest = r.digest := by
  rw [l.digest_eq, r.digest_eq]
  exact congrArg sha256 ((contents_eq_iff h).mpr hzeros)

/-- **Equality of keys against equality of contents.** They agree, and equal contents hash alike,
exactly when the contents differ or their zeros agree. That the digest tells the zeros apart takes a
hash without a collision on the two contents. -/
theorem contentEquality_iff (hashRange : Bytes → UInt64) (l r : ImmutableKey sha256)
    (hsha256 : sha256 l.contents = sha256 r.contents → l.contents = r.contents) :
    ContentEquality hashRange l r ↔ (SameContents l r → ZerosAgree l r) := by
  constructor
  · rintro ⟨hequal, -⟩ hcontents
    have hdigest := ((equal_iff l r).mp (hequal.mpr hcontents)).1
    rw [l.digest_eq, r.digest_eq] at hdigest
    exact (contents_eq_iff hcontents).mp (hsha256 hdigest)
  · intro h
    refine ⟨(equal_iff l r).trans ?_, fun hcontents ↦ ?_⟩
    · exact and_iff_right_of_imp fun hcontents ↦ digest_eq_of_zerosAgree hcontents (h hcontents)
    · rw [hashValue, hashValue, digest_eq_of_zerosAgree hcontents (h hcontents)]

/-- A document with the one member `a`. -/
def memberDocument (v : Value) (h : v.WellFormed) : Document :=
  ⟨.object [(ascii "a", v)], wellFormed_member h⟩

/-- The key of a document with one member `a`, which is used. -/
def memberKey (v : Value) (h : Resolves (.object [(ascii "a", v)]) (ascii "/a"))
    (hv : v.WellFormed) : ImmutableKey Sha256Digest.openssl :=
  ofResolves _ ⟨.object [(ascii "a", v)], by simpa using hv⟩ ((∅ : PathSet).insert (ascii "/a"))
    (by simpa using h)

/-- Integers of the two kinds and of one value. -/
def signedOne : ImmutableKey Sha256Digest.openssl :=
  memberKey (.int64 1) (by decide +kernel) trivial

def unsignedOne : ImmutableKey Sha256Digest.openssl :=
  memberKey (.uint64 1) (by decide +kernel) trivial

theorem contentEquality_one :
    ContentEquality (fun bytes ↦ bytes.foldl (fun seed b ↦ 31 * seed + b.toUInt64) 0)
      signedOne unsignedOne := by
  have hcontents : signedOne.contents = unsignedOne.contents := by decide +kernel
  rw [contentEquality_iff _ signedOne unsignedOne fun _ ↦ hcontents]
  exact fun h ↦ (contents_eq_iff h).mp hcontents

/-- Two documents with one member `a`, a zero of either sign. -/
def signedZeros : List Command :=
  [.newMutable (memberDocument (.double 0) trivial), .use 0 (ascii "a"), .fix 0,
    .newMutable (memberDocument (.double 0x8000000000000000) trivial), .use 1 (ascii "a"), .fix 1]

/-- The contents of the two keys are equal, and the keys are not. -/
theorem signedZeros_tells_apart :
    ∃ pool, Pool.run Sha256Digest.openssl signedZeros = some pool ∧
      ∃ l ∈ pool.immutableKeys, ∃ r ∈ pool.immutableKeys,
        SameContents l r ∧ l.equal r = .ok false := by
  have h : (Pool.run Sha256Digest.openssl signedZeros).any (fun pool ↦
      pool.immutableKeys.any fun l ↦ pool.immutableKeys.any fun r ↦
        decide (equalContents l r = .ok true ∧ l.equal r = .ok false)) = true := by
    decide +kernel
  simpa only [Option.any_eq_true, List.any_eq_true, decide_eq_true_eq, equalContents_iff] using h

end ImmutableKey

end Entity

end BoostConnector
