import Mathlib.Data.List.Lex

/-!
# Byte strings

`json::string`, `std::string` and the input of SHA-256 are all sequences of bytes. The order on them
is the one of `std::set<json::string>` and of the member sort in the digest: lexicographic, bytes
compared as unsigned.
-/

namespace BoostConnector

instance instLinearOrderUInt8 : LinearOrder UInt8 where
  le_refl a := UInt8.le_refl a
  le_trans _ _ _ h₁ h₂ := UInt8.le_trans h₁ h₂
  le_antisymm _ _ h₁ h₂ := UInt8.le_antisymm h₁ h₂
  le_total a b := UInt8.le_total a b
  lt_iff_le_not_ge a b := by
    rw [UInt8.le_iff_toNat_le, UInt8.le_iff_toNat_le, UInt8.lt_iff_toNat_lt]
    omega
  toDecidableLE := inferInstance
  toDecidableEq := inferInstance
  toDecidableLT := inferInstance

/-- The contents of a `json::string` or `std::string`. -/
abbrev Bytes := List UInt8

/-- The bytes of a literal of the source, all of which are ASCII. -/
def ascii (s : String) : Bytes := s.toList.map fun c ↦ UInt8.ofNat c.toNat

end BoostConnector
