import BoostConnector.Entity.Key
import BoostConnector.Hash.Hex

/-!
# Printed digests

`operator<<` writes a digest as two characters a byte, from a table of its own. The table has a
second zero after the nine, so every digit from ten on is off by one: ten prints as `0`, eleven as
`a`, fifteen as `e`. A digest still prints as 64 characters, which read as a digest, but the text is
that of the digest only as long as no nibble is above nine.
-/

namespace BoostConnector

namespace Entity

open Hex

namespace Sha256Digest

/-- The table of `operator<<`. -/
def hex : Bytes := ascii "01234567890abcdef"

/-- `hex[i]`, for an index within the table. -/
def hexAt (i : ℕ) : UInt8 := hex.getD i 0

/-- What `operator<<` writes: the loop fills the buffer from its front. -/
def print (digest : Sha256Digest) : Bytes :=
  digest.data.toList.flatMap fun b ↦ [hexAt (b.toNat >>> 4), hexAt (b.toNat &&& 0xf)]

/-! ## The text of a digest -/

theorem print_eq (digest : Sha256Digest) :
    digest.print = (nibbles digest.data.toList).map hexAt := by
  have hand (n : ℕ) : n &&& 0xf = n % 16 := Nat.and_two_pow_sub_one_eq_mod n 4
  rw [print, nibbles, List.map_flatMap]
  simp only [Nat.shiftRight_eq_div_pow, hand, List.map_cons, List.map_nil]

theorem length_print (digest : Sha256Digest) : digest.print.length = 64 := by
  rw [print_eq, List.length_map, length_nibbles, Vector.length_toList]

/-- The table is right up to nine. -/
theorem value_hexAt_eq_some_iff {n : ℕ} (h : n < 16) : value (hexAt n) = some n ↔ n ≤ 9 := by
  revert n
  decide

/-- The two nibbles that print alike. -/
def PrintAlike (m n : ℕ) : Prop := m = n ∨ m = 0 ∧ n = 10 ∨ m = 10 ∧ n = 0

theorem hexAt_eq_iff {m n : ℕ} (hm : m < 16) (hn : n < 16) :
    hexAt m = hexAt n ↔ PrintAlike m n := by
  have h : ∀ m < 16, ∀ n < 16, hexAt m = hexAt n ↔ m = n ∨ m = 0 ∧ n = 10 ∨ m = 10 ∧ n = 0 := by
    decide
  exact h m hm n hn

/-- **Which digests decode back, and which print alike.** The text has 64 characters. It gives back
the bytes exactly for digests without a nibble above nine, and tells two digests apart exactly if
they differ in a nibble other than by zero in the one and ten in the other. -/
theorem decode_print_iff (digest other : Sha256Digest) :
    (digest.print.length = 64 ∧ decode digest.print = some digest.data.toList ↔
        ∀ n ∈ nibbles digest.data.toList, n ≤ 9) ∧
      (digest.print = other.print ↔
        List.Forall₂ PrintAlike (nibbles digest.data.toList) (nibbles other.data.toList)) := by
  constructor
  · rw [and_iff_right digest.length_print, print_eq, decode_map_nibbles_iff]
    exact forall₂_congr fun n hn ↦ value_hexAt_eq_some_iff (lt_of_mem_nibbles hn)
  · rw [print_eq, print_eq]
    exact map_nibbles_eq_iff hexAt_eq_iff _ _

/-- Thirty-two bytes of one value. -/
def uniform (b : UInt8) : Sha256Digest := ⟨Vector.replicate 32 b⟩

theorem newlines_print_as_zeros :
    decode (uniform 10).print ≠ some (uniform 10).data.toList ∧ uniform 10 ≠ uniform 0 ∧
      (uniform 10).print = (uniform 0).print := by
  decide +kernel

end Sha256Digest

end Entity

end BoostConnector
