import BoostConnector.Entity.KeyEquality
import BoostConnector.Json.Layout

/-!
# What the digest of a key leaves out

The constructor of an immutable key passes paths and values to SHA-256 one after the other, with
nothing in between and no word on kinds. Keys with different contents can therefore have the same
input: the text `null` reads like the null value. What is left out is the layout of the key, and
nothing else. Two keys with different contents differ in their layouts or in the bytes
(`contents_injective`), and the comparison of the contents in `operator==` tells them apart in
either case.
-/

namespace BoostConnector

namespace Entity

open Collections Json

variable {sha256 : Bytes → Sha256Digest}

namespace ImmutableKey

/-- The lengths of the indexed paths and the layouts of the values found there. -/
def layout (self : ImmutableKey sha256) : List (ℕ × Layout) :=
  self.index.toList.map fun path ↦ memberLayout (path, valueAt self.value.1 path)

/-- The path and the value of every call are those of the other key. -/
theorem sameContents_of_contents_eq {l r : ImmutableKey sha256}
    (hnan : ∀ path ∈ l.index, ∀ v, findPath l.value.1 path = .ok v → v.NoNaN)
    (hlayout : l.layout = r.layout) (h : l.contents = r.contents) : SameContents l r := by
  have hlay := forall₂_of_map_eq hlayout
  have hbytes := forall₂_of_flatMap_eq (hlay.imp fun _ _ ↦ length_member_eq) h
  have hmember := List.Forall₂.mp (fun _ _ ↦ member_eq_of_bytes_eq) hlay hbytes
  have hindex : l.index.toList = r.index.toList := by
    rw [← List.map_id l.index.toList, ← List.map_id r.index.toList]
    exact map_eq_of_forall₂ hmember fun _ _ _ hpath ↦ hpath.1
  rw [← hindex, List.forall₂_same] at hmember
  rw [sameContents_iff]
  refine ⟨SortedSet.toList_injective hindex, fun path hpath ↦ ?_⟩
  obtain ⟨-, hvalue, hrest⟩ := hmember path hpath
  have hr : path ∈ r.index := (SortedSet.toList_injective hindex) ▸ hpath
  apply equal_of_updateSha256_eq (wellFormed_valueAt _ (r.resolves path hr)) _ hvalue hrest
  exact hnan path hpath _ (findPath_eq_valueAt (l.resolves path hpath))

/-- **The encoding is injective but for the layout.** Keys with different contents, where no NaN is
involved, have different inputs to the digest as soon as they have one layout, so that one digest
for both is a collision; and they never compare equal. -/
theorem contents_injective (l r : ImmutableKey sha256)
    (hnan : ∀ path ∈ l.index, ∀ v, findPath l.value.1 path = .ok v → v.NoNaN)
    (h : ¬SameContents l r) :
    (l.layout ≠ r.layout ∨ l.contents ≠ r.contents) ∧
      (l.layout = r.layout → l.digest = r.digest →
        l.contents ≠ r.contents ∧ sha256 l.contents = sha256 r.contents) ∧
      l.equal r = .ok false := by
  have hne : l.layout = r.layout → l.contents ≠ r.contents :=
    fun hlayout hcontents ↦ h (sameContents_of_contents_eq hnan hlayout hcontents)
  refine ⟨not_or_of_imp hne, fun hlayout hdigest ↦ ⟨hne hlayout, ?_⟩, ?_⟩
  · rw [l.digest_eq, r.digest_eq] at hdigest
    exact hdigest
  · have hok := equal_isOk l r
    have hfalse : l.equal r ≠ .ok true := fun htrue ↦ h ((equal_iff l r).mp htrue).2
    cases hequal : l.equal r with
    | error e => simp [hequal, Except.isOk, Except.toBool] at hok
    | ok b =>
      rw [hequal] at hfalse
      cases b with
      | false => rfl
      | true => exact absurd rfl hfalse

/-- An integer next to the one of `signedOne`. -/
def signedTwo : ImmutableKey Sha256Digest.openssl :=
  memberKey (.int64 2) (by decide +kernel) trivial

theorem layout_signedOne : signedOne.layout = signedTwo.layout := by
  have hvalue : ∀ v : Value, valueAt (.object [(ascii "a", v)]) (ascii "/a") = v := by
    intro v
    have hdissect : dissectPath (ascii "/a") = [ascii "a"] := by decide +kernel
    rw [valueAt, findPath, hdissect]
    rfl
  have hone : valueAt signedOne.value.1 (ascii "/a") = .int64 1 := hvalue _
  have htwo : valueAt signedTwo.value.1 (ascii "/a") = .int64 2 := hvalue _
  change [memberLayout (_, valueAt signedOne.value.1 _)] =
    [memberLayout (_, valueAt signedTwo.value.1 _)]
  rw [hone, htwo]
  rfl

theorem contents_injective_one_two :
    signedOne.contents ≠ signedTwo.contents ∧ signedOne.equal signedTwo = .ok false := by
  have hnan : ∀ path ∈ signedOne.index, ∀ v, findPath signedOne.value.1 path = .ok v → v.NoNaN :=
    fun path _ v hv ↦ findPathFrom_invariant noNaN_of_subvalue
      (noNaN_object.mpr (by simp [Value.NoNaN])) hv
  have hcontents : ¬SameContents signedOne signedTwo := by
    rw [← equalContents_iff]
    decide +kernel
  obtain ⟨hne, -, hequal⟩ := contents_injective signedOne signedTwo hnan hcontents
  exact ⟨hne.resolve_left (not_not.mpr layout_signedOne), hequal⟩

/-- Two documents whose member `a` is the text `null` and the null value. -/
def textAndNull : List Command :=
  [.newMutable (memberDocument (.string (ascii "null")) trivial), .use 0 (ascii "a"), .fix 0,
    .newMutable (memberDocument .null trivial), .use 1 (ascii "a"), .fix 1]

/-- A document whose member `a` is a NaN. -/
def memberNaN : List Command :=
  [.newMutable (memberDocument (.double 0x7ff8000000000000) trivial), .use 0 (ascii "a"), .fix 0]

/-- Different contents with the same input to the digest: the text `null` against the null value,
and a NaN against itself. -/
theorem contents_confused :
    (∃ pool, Pool.run Sha256Digest.openssl textAndNull = some pool ∧
      ∃ l ∈ pool.immutableKeys, ∃ r ∈ pool.immutableKeys,
        ¬SameContents l r ∧ l.contents = r.contents) ∧
    ∃ pool, Pool.run Sha256Digest.openssl memberNaN = some pool ∧
      ∃ l ∈ pool.immutableKeys, ∃ r ∈ pool.immutableKeys,
        ¬SameContents l r ∧ l.contents = r.contents := by
  have h : ∀ commands ∈ [textAndNull, memberNaN],
      (Pool.run Sha256Digest.openssl commands).any (fun pool ↦
        pool.immutableKeys.any fun l ↦ pool.immutableKeys.any fun r ↦
          decide (¬equalContents l r = .ok true ∧ l.contents = r.contents)) = true := by
    decide +kernel
  simp only [Option.any_eq_true, List.any_eq_true, decide_eq_true_eq, equalContents_iff] at h
  exact ⟨h _ (by simp), h _ (by simp)⟩

end ImmutableKey

end Entity

end BoostConnector
