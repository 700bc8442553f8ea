import BoostConnector.Json.Bytes
import Mathlib.Data.List.Forall2

/-!
# Hexadecimal text

A byte is two nibbles, the high one first, and lower-case hexadecimal text has one character for
each. Encoders are tables from nibbles to characters. Whether a text made with a table decodes back
depends on the table at the nibbles that occur and on nothing else (`decode_map_nibbles_iff`).
-/

namespace BoostConnector

namespace Hex

/-! ## Nibbles -/

def nibbles (bytes : Bytes) : List ℕ := bytes.flatMap fun b ↦ [b.toNat / 16, b.toNat % 16]

@[simp] theorem nibbles_nil : nibbles [] = [] := rfl

@[simp] theorem nibbles_cons (b : UInt8) (bytes : Bytes) :
    nibbles (b :: bytes) = b.toNat / 16 :: b.toNat % 16 :: nibbles bytes := rfl

theorem length_nibbles (bytes : Bytes) : (nibbles bytes).length = 2 * bytes.length := by
  induction bytes with
  | nil => rfl
  | cons b bytes ih =>
    simp only [nibbles_cons, List.length_cons, ih]
    omega

theorem lt_of_mem_nibbles {n : ℕ} {bytes : Bytes} (h : n ∈ nibbles bytes) : n < 16 := by
  obtain ⟨b, -, hn⟩ := List.mem_flatMap.mp h
  have hb := b.toNat_lt
  simp only [List.mem_cons, List.not_mem_nil, or_false] at hn
  omega

/-! ## Decoding -/

/-- The value of a lower-case hexadecimal digit. -/
def value (c : UInt8) : Option ℕ :=
  if 48 ≤ c ∧ c ≤ 57 then some (c.toNat - 48)
  else if 97 ≤ c ∧ c ≤ 102 then some (c.toNat - 87)
  else none

/-- The bytes that a text of lower-case hexadecimal digits stands for. -/
def decode : Bytes → Option Bytes
  | [] => some []
  | [_] => none
  | hi :: lo :: text =>
    match value hi, value lo, decode text with
    | some x, some y, some bytes => some (UInt8.ofNat (16 * x + y) :: bytes)
    | _, _, _ => none

theorem lt_of_value_eq_some {c : UInt8} {n : ℕ} (h : value c = some n) : n < 16 := by
  rw [value] at h
  split_ifs at h with hdigit hletter
  · obtain rfl := Option.some_inj.mp h
    have hle := UInt8.le_iff_toNat_le.mp hdigit.2
    have h57 : (57 : UInt8).toNat = 57 := rfl
    omega
  · obtain rfl := Option.some_inj.mp h
    have hle := UInt8.le_iff_toNat_le.mp hletter.2
    have h102 : (102 : UInt8).toNat = 102 := rfl
    omega

/-- A byte is given back by its nibbles only. -/
theorem ofNat_eq_iff {x y : ℕ} (hx : x < 16) (hy : y < 16) (b : UInt8) :
    UInt8.ofNat (16 * x + y) = b ↔ x = b.toNat / 16 ∧ y = b.toNat % 16 := by
  have hb := b.toNat_lt
  have hsum : (UInt8.ofNat (16 * x + y)).toNat = 16 * x + y := by
    rw [UInt8.toNat_ofNat']
    omega
  rw [← UInt8.toNat_inj, hsum]
  omega

theorem decode_cons_cons_eq_some_iff {hi lo b : UInt8} {text bytes : Bytes} :
    decode (hi :: lo :: text) = some (b :: bytes) ↔
      value hi = some (b.toNat / 16) ∧ value lo = some (b.toNat % 16) ∧
        decode text = some bytes := by
  rw [decode]
  cases hx : value hi with
  | none => simp
  | some x =>
    cases hy : value lo with
    | none => simp
    | some y =>
      cases decode text with
      | none => simp
      | some rest =>
        have hbyte := ofNat_eq_iff (lt_of_value_eq_some hx) (lt_of_value_eq_some hy) b
        simp only [Option.some.injEq, List.cons.injEq, hbyte, and_assoc]

/-! ## Encoding with a table -/

/-- **The text decodes back** exactly if the table has the right digit for every nibble in it. -/
theorem decode_map_nibbles_iff {table : ℕ → UInt8} {bytes : Bytes} :
    decode ((nibbles bytes).map table) = some bytes ↔
      ∀ n ∈ nibbles bytes, value (table n) = some n := by
  induction bytes with
  | nil => simp [decode]
  | cons b bytes ih =>
    rw [nibbles_cons, List.map_cons, List.map_cons, decode_cons_cons_eq_some_iff, ih]
    simp

/-- Two byte strings have one text when the table confuses their nibbles, one by one. -/
theorem map_nibbles_eq_iff {table : ℕ → UInt8} {R : ℕ → ℕ → Prop}
    (hR : ∀ {m n : ℕ}, m < 16 → n < 16 → (table m = table n ↔ R m n)) (bytes bytes' : Bytes) :
    (nibbles bytes).map table = (nibbles bytes').map table ↔
      List.Forall₂ R (nibbles bytes) (nibbles bytes') := by
  rw [← List.forall₂_eq_eq_eq, List.forall₂_map_left_iff, List.forall₂_map_right_iff,
    List.forall₂_iff_zip, List.forall₂_iff_zip]
  refine and_congr_right fun _ ↦ forall₂_congr fun m n ↦ ?_
  apply imp_congr_right
  intro hmem
  obtain ⟨hm, hn⟩ := List.of_mem_zip hmem
  exact hR (lt_of_mem_nibbles hm) (lt_of_mem_nibbles hn)

end Hex

end BoostConnector
