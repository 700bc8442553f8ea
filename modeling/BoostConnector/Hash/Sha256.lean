import Mathlib.Data.List.Basic

/-!
# SHA-256

The hash function of FIPS 180-4, on whole byte strings, as a program that evaluates. Developments
that treat the hash as a parameter instantiate it here to compute a particular digest.

The message schedule is not stored. A round needs the current word only, and the words to come
depend on the last sixteen, so a window of sixteen words slides along with the rounds.
-/

namespace BoostConnector

namespace Sha256

abbrev Word := BitVec 32

/-! ## Compression -/

def roundConstants : List Word :=
  [0x428a2f98, 0x71374491, 0xb5c0fbcf, 0xe9b5dba5, 0x3956c25b, 0x59f111f1, 0x923f82a4, 0xab1c5ed5,
   0xd807aa98, 0x12835b01, 0x243185be, 0x550c7dc3, 0x72be5d74, 0x80deb1fe, 0x9bdc06a7, 0xc19bf174,
   0xe49b69c1, 0xefbe4786, 0x0fc19dc6, 0x240ca1cc, 0x2de92c6f, 0x4a7484aa, 0x5cb0a9dc, 0x76f988da,
   0x983e5152, 0xa831c66d, 0xb00327c8, 0xbf597fc7, 0xc6e00bf3, 0xd5a79147, 0x06ca6351, 0x14292967,
   0x27b70a85, 0x2e1b2138, 0x4d2c6dfc, 0x53380d13, 0x650a7354, 0x766a0abb, 0x81c2c92e, 0x92722c85,
   0xa2bfe8a1, 0xa81a664b, 0xc24b8b70, 0xc76c51a3, 0xd192e819, 0xd6990624, 0xf40e3585, 0x106aa070,
   0x19a4c116, 0x1e376c08, 0x2748774c, 0x34b0bcb5, 0x391c0cb3, 0x4ed8aa4a, 0x5b9cca4f, 0x682e6ff3,
   0x748f82ee, 0x78a5636f, 0x84c87814, 0x8cc70208, 0x90befffa, 0xa4506ceb, 0xbef9a3f7, 0xc67178f2]

/-- The eight chaining words, or the eight working variables of a round. -/
structure State where
  a : Word
  b : Word
  c : Word
  d : Word
  e : Word
  f : Word
  g : Word
  h : Word

def State.initial : State where
  a := 0x6a09e667
  b := 0xbb67ae85
  c := 0x3c6ef372
  d := 0xa54ff53a
  e := 0x510e527f
  f := 0x9b05688c
  g := 0x1f83d9ab
  h := 0x5be0cd19

def State.add (s t : State) : State :=
  ⟨s.a + t.a, s.b + t.b, s.c + t.c, s.d + t.d, s.e + t.e, s.f + t.f, s.g + t.g, s.h + t.h⟩

def State.words (s : State) : List Word := [s.a, s.b, s.c, s.d, s.e, s.f, s.g, s.h]

def ch (x y z : Word) : Word := (x &&& y) ^^^ (~~~x &&& z)

def maj (x y z : Word) : Word := (x &&& y) ^^^ (x &&& z) ^^^ (y &&& z)

def bigSigma0 (x : Word) : Word := x.rotateRight 2 ^^^ x.rotateRight 13 ^^^ x.rotateRight 22

def bigSigma1 (x : Word) : Word := x.rotateRight 6 ^^^ x.rotateRight 11 ^^^ x.rotateRight 25

def smallSigma0 (x : Word) : Word := x.rotateRight 7 ^^^ x.rotateRight 18 ^^^ x >>> 3

def smallSigma1 (x : Word) : Word := x.rotateRight 17 ^^^ x.rotateRight 19 ^^^ x >>> 10

def round (s : State) (k w : Word) : State :=
  let t₁ := s.h + bigSigma1 s.e + ch s.e s.f s.g + k + w
  let t₂ := bigSigma0 s.a + maj s.a s.b s.c
  ⟨t₁ + t₂, s.a, s.b, s.c, s.d + t₁, s.e, s.f, s.g⟩

/-- The word that follows a window of sixteen in the message schedule. -/
def nextWord (window : List Word) : Word :=
  smallSigma1 (window.getD 14 0) + window.getD 9 0 + smallSigma0 (window.getD 1 0) +
    window.getD 0 0

/-- One round for each constant, on the first word of the window. -/
def rounds : List Word → List Word → State → State
  | [], _, s => s
  | k :: ks, window, s =>
    rounds ks (window.tail ++ [nextWord window]) (round s k (window.headD 0))

def compress (s : State) (block : List Word) : State := s.add (rounds roundConstants block s)

/-! ## Blocks and padding -/

/-- The length in bits, as eight bytes. -/
def lengthBytes (length : ℕ) : List UInt8 :=
  [56, 48, 40, 32, 24, 16, 8, 0].map fun i ↦ UInt8.ofNat (Nat.shiftRight (8 * length) i)

/-- The message, a one bit, zeros up to 56 bytes modulo 64, and the length. -/
def pad (message : List UInt8) : List UInt8 :=
  message ++ 0x80 :: List.replicate ((119 - message.length % 64) % 64) 0 ++
    lengthBytes message.length

def toWords : List UInt8 → List Word
  | x :: y :: z :: t :: bytes =>
    BitVec.ofNat 32 (((x.toNat * 256 + y.toNat) * 256 + z.toNat) * 256 + t.toNat) :: toWords bytes
  | _ => []

def toBytes (w : Word) : List UInt8 :=
  [24, 16, 8, 0].map fun i ↦ UInt8.ofNat (w >>> i).toNat

def compressBlocks : ℕ → List Word → State → State
  | 0, _, s => s
  | n + 1, words, s => compressBlocks n (words.drop 16) (compress s (words.take 16))

def hash (message : List UInt8) : List UInt8 :=
  let padded := pad message
  (compressBlocks (padded.length / 64) (toWords padded) State.initial).words.flatMap toBytes

theorem length_hash (message : List UInt8) : (hash message).length = 32 := by
  simp [hash, State.words, toBytes]

/-- The one-block example of the standard, the message `abc`. -/
example : hash [0x61, 0x62, 0x63] =
    [0xba, 0x78, 0x16, 0xbf, 0x8f, 0x01, 0xcf, 0xea, 0x41, 0x41, 0x40, 0xde, 0x5d, 0xae, 0x22,
     0x23, 0xb0, 0x03, 0x61, 0xa3, 0x96, 0x17, 0x7a, 0x9c, 0xb4, 0x10, 0xff, 0x61, 0xf2, 0x00,
     0x15, 0xad] := by
  decide +kernel

end Sha256

end BoostConnector
