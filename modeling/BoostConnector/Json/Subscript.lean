import BoostConnector.Json.Path

/-!
# Array subscripts

A segment that meets an array goes through `assert_unsigned_integer`, which lets `strtoul` read it
and checks that all of it was read. What `strtoul` reads is more than unsigned integers: blanks and
a sign may come first, a minus sign negates modulo 2⁶⁴, and the empty string is read as zero without
a complaint. On top of that the segment arrives as a C string and ends at its first NUL.

`Spells t n` is this grammar. A subscript is treated as an unsigned decimal integer in range exactly
when it is a numeral, or at least spells no element of the array (`subscripts_exact_iff`).
-/

namespace BoostConnector

namespace Json

/-! ## Spellings -/

/-- A non-empty string of decimal digits. -/
def Numeral (s : Bytes) : Prop := s ≠ [] ∧ ∀ c ∈ s, isDigit c = true

instance (s : Bytes) : Decidable (Numeral s) :=
  decidable_of_iff (s ≠ [] ∧ s.all isDigit = true) (and_congr_right fun _ ↦ List.all_eq_true)

/-- What `strtoul` makes of a sign and digits. -/
def signedValue (sign digits : Bytes) : ℕ :=
  if UInt64.size ≤ decimal digits then UInt64.size - 1
  else if sign = [45] then (UInt64.size - decimal digits) % UInt64.size
  else decimal digits

/-- The texts that are read as a number to their end. -/
inductive Spells : Bytes → ℕ → Prop
  | empty : Spells [] 0
  | signed {blanks sign digits : Bytes} (hblanks : ∀ c ∈ blanks, isSpace c = true)
      (hsign : sign = [] ∨ sign = [43] ∨ sign = [45]) (hdigits : Numeral digits) :
      Spells (blanks ++ (sign ++ digits)) (signedValue sign digits)

/-! ## Reading -/

theorem isSpace_eq_false_of_isDigit {c : UInt8} (h : isDigit c = true) : isSpace c = false := by
  simp only [isDigit, Bool.and_eq_true, decide_eq_true_eq, UInt8.le_iff_toNat_le] at h
  simp only [isSpace, Bool.or_eq_false_iff, Bool.and_eq_false_iff, beq_eq_false_iff_ne,
    decide_eq_false_iff_not, UInt8.le_iff_toNat_le, ne_eq, ← UInt8.toNat_inj]
  simp at h ⊢
  omega

theorem ne_sign_of_isDigit {c : UInt8} (h : isDigit c = true) : c ≠ 43 ∧ c ≠ 45 := by
  simp only [isDigit, Bool.and_eq_true, decide_eq_true_eq, UInt8.le_iff_toNat_le] at h
  simp only [ne_eq, ← UInt8.toNat_inj]
  simp at h ⊢
  omega

/-- The sign that `strtoul` takes off a text. -/
theorem take_sign (text : Bytes) :
    let sign := text.take (if text.head? = some 43 ∨ text.head? = some 45 then 1 else 0)
    (sign = [] ∨ sign = [43] ∨ sign = [45]) ∧ sign ++ text.drop sign.length = text := by
  cases text with
  | nil => simp
  | cons c text =>
    by_cases hsign : c = 43 ∨ c = 45
    · have hhead : (c :: text).head? = some 43 ∨ (c :: text).head? = some 45 := by simpa using hsign
      rw [if_pos hhead]
      rcases hsign with rfl | rfl <;> simp
    · have hhead : ¬((c :: text).head? = some 43 ∨ (c :: text).head? = some 45) := by
        simpa using hsign
      rw [if_neg hhead]
      simp

/-- The text `strtoul` has read to its end is blanks, a sign and digits. -/
theorem spells_of_strtoul {t : Bytes} {n : ℕ} (h : strtoul t = (n, t.length)) : Spells t n := by
  have hparts := List.takeWhile_append_dropWhile (p := isSpace) (l := t)
  have hblanks : ∀ c ∈ t.takeWhile isSpace, isSpace c = true := fun c ↦ List.mem_takeWhile_imp
  rw [strtoul] at h
  generalize t.takeWhile isSpace = blanks at h hparts hblanks
  generalize t.dropWhile isSpace = text at h hparts
  obtain ⟨hsign, htext⟩ := take_sign text
  generalize text.take (if text.head? = some 43 ∨ text.head? = some 45 then 1 else 0) = sign
    at h hsign htext
  generalize text.drop sign.length = rest at h htext
  by_cases hempty : rest.takeWhile isDigit = []
  · rw [if_pos hempty, Prod.mk.injEq] at h
    rw [List.eq_nil_of_length_eq_zero h.2.symm, ← h.1]
    exact .empty
  · rw [if_neg hempty, Prod.mk.injEq] at h
    obtain ⟨hvalue, hlen⟩ := h
    -- nothing is left after the digits
    have hall : rest.takeWhile isDigit = rest := by
      apply (List.takeWhile_prefix isDigit).eq_of_length
      rw [← hparts, ← htext, List.length_append, List.length_append] at hlen
      omega
    rw [hall] at hvalue hempty
    rw [← hparts, ← htext, ← hvalue]
    exact .signed hblanks hsign ⟨hempty, List.takeWhile_eq_self_iff.mp hall⟩

theorem strtoul_signed {blanks sign digits : Bytes} (hblanks : ∀ c ∈ blanks, isSpace c = true)
    (hsign : sign = [] ∨ sign = [43] ∨ sign = [45]) (hdigits : Numeral digits) :
    strtoul (blanks ++ (sign ++ digits)) =
      (signedValue sign digits, (blanks ++ (sign ++ digits)).length) := by
  obtain ⟨hne, hdigit⟩ := hdigits
  obtain ⟨d, digits, rfl⟩ := List.exists_cons_of_ne_nil hne
  have hd := hdigit d List.mem_cons_self
  have htake : (sign ++ d :: digits).takeWhile isSpace = [] := by
    rcases hsign with rfl | rfl | rfl
    · simp [isSpace_eq_false_of_isDigit hd]
    · simp [isSpace]
    · simp [isSpace]
  have hdrop : (sign ++ d :: digits).dropWhile isSpace = sign ++ d :: digits := by
    rcases hsign with rfl | rfl | rfl
    · simp [isSpace_eq_false_of_isDigit hd]
    · simp [isSpace]
    · simp [isSpace]
  have hhead : (sign ++ d :: digits).take (if (sign ++ d :: digits).head? = some 43 ∨
      (sign ++ d :: digits).head? = some 45 then 1 else 0) = sign := by
    rcases hsign with rfl | rfl | rfl
    · simp [ne_sign_of_isDigit hd]
    · simp
    · simp
  have hall : (d :: digits).takeWhile isDigit = d :: digits :=
    List.takeWhile_eq_self_iff.mpr hdigit
  rw [strtoul, List.takeWhile_append_of_pos hblanks, List.dropWhile_append_of_pos hblanks, htake,
    hdrop, hhead, List.drop_left, hall, if_neg hne, List.append_nil]
  simp [signedValue, Nat.add_assoc]

/-- **`assert_unsigned_integer` accepts the spellings** of a number, and gives the number. -/
theorem assertUnsignedInteger_eq_ok_iff {t : Bytes} {n : ℕ} :
    assertUnsignedInteger (cStr t) = .ok n ↔ Spells (cStr t) n := by
  have hidem : cStr (cStr t) = cStr t := by
    rw [cStr, cStr, List.takeWhile_idem]
  rw [assertUnsignedInteger, hidem]
  generalize cStr t = text
  constructor
  · intro h
    split_ifs at h with hlen
    apply spells_of_strtoul
    rw [← Except.ok.inj h, ← not_not.mp hlen]
  · intro h
    cases h with
    | empty => rfl
    | signed hblanks hsign hdigits =>
      rw [strtoul_signed hblanks hsign hdigits]
      simp

/-- A text spells one number at most. -/
theorem Spells.unique {t : Bytes} {m n : ℕ} (hm : Spells (cStr t) m) (hn : Spells (cStr t) n) :
    m = n := by
  rw [← assertUnsignedInteger_eq_ok_iff] at hm hn
  exact Except.ok.inj (hm.symm.trans hn)

theorem subvalue_array_eq_ok_iff {a : List Value} {name : Bytes} {w : Value} :
    subvalue (.array a) name = .ok w ↔ ∃ n, Spells (cStr name) n ∧ a[n]? = some w := by
  rw [subvalue]
  constructor
  · intro h
    cases hindex : assertUnsignedInteger (cStr name) with
    | error e => simp [hindex, Except.bind] at h
    | ok n =>
      refine ⟨n, assertUnsignedInteger_eq_ok_iff.mp hindex, ?_⟩
      cases hat : a[n]? with
      | none => simp [hindex, Except.bind, atIndex, hat] at h
      | some u => simpa [hindex, Except.bind, atIndex, hat] using h
  · rintro ⟨n, hn, hat⟩
    rw [assertUnsignedInteger_eq_ok_iff.mpr hn]
    simp [Except.bind, atIndex, hat]

/-! ## Numerals -/

theorem cStr_numeral {s : Bytes} (h : Numeral s) : cStr s = s := by
  apply List.takeWhile_eq_self_iff.mpr
  intro c hc
  have hdigit := h.2 c hc
  simp only [isDigit, Bool.and_eq_true, decide_eq_true_eq, UInt8.le_iff_toNat_le] at hdigit
  simp only [bne_iff_ne, ne_eq, ← UInt8.toNat_inj]
  simp at hdigit ⊢
  omega

theorem Numeral.spells {s : Bytes} (h : Numeral s) : Spells (cStr s) (signedValue [] s) := by
  have hspells : Spells ([] ++ [] ++ s) (signedValue [] s) := .signed (by simp) (.inl rfl) h
  rw [cStr_numeral h]
  exact hspells

/-- Saturation makes no difference, since no array is that large. -/
theorem getElem?_signedValue {a : List Value} (ha : a.length < UInt64.size) (s : Bytes) :
    a[signedValue [] s]? = a[decimal s]? := by
  rw [signedValue, if_neg (by simp : ¬([] : Bytes) = [45])]
  split_ifs with hlarge
  · rw [List.getElem?_eq_none (by omega), List.getElem?_eq_none (by omega)]
  · rfl

/-- **Subscripts are unsigned decimal integers in range** exactly if they are numerals or spell no
element of the array. The size of an array fits a `std::size_t`. -/
theorem subscripts_exact_iff {a : List Value} (ha : a.length < UInt64.size) (s : Bytes) :
    (∀ w, subvalue (.array a) s = .ok w ↔ Numeral s ∧ a[decimal s]? = some w) ↔
      Numeral s ∨ ∀ n, Spells (cStr s) n → a.length ≤ n := by
  constructor
  · intro h
    by_cases hs : Numeral s
    · exact .inl hs
    · right
      intro n hn
      by_contra hlt
      have hat : a[n]? = some a[n] := List.getElem?_eq_getElem (not_le.mp hlt)
      exact hs ((h _).mp (subvalue_array_eq_ok_iff.mpr ⟨n, hn, hat⟩)).1
  · intro h w
    rw [subvalue_array_eq_ok_iff]
    by_cases hs : Numeral s
    · rw [and_iff_right hs, ← getElem?_signedValue ha]
      constructor
      · rintro ⟨n, hn, hat⟩
        rwa [← hn.unique hs.spells]
      · exact fun hat ↦ ⟨_, hs.spells, hat⟩
    · have hout := h.resolve_left hs
      refine iff_of_false ?_ fun hw ↦ hs hw.1
      rintro ⟨n, hn, hat⟩
      rw [List.getElem?_eq_none (hout n hn)] at hat
      exact absurd hat (by simp)

theorem subscripts_exact_pair :
    Numeral (ascii "01") ∧ ∀ w, subvalue (.array [.null, .bool true]) (ascii "01") = .ok w ↔
      Numeral (ascii "01") ∧ [Value.null, .bool true][decimal (ascii "01")]? = some w := by
  have h : Numeral (ascii "01") := by decide
  exact ⟨h, (subscripts_exact_iff (by decide) (ascii "01")).mpr (.inl h)⟩

/-- Accepted for the index 1: a sign, a blank, text after a NUL, and a number negated modulo 2⁶⁴. -/
theorem spellings_of_one :
    (subvalue (.array [.null, .bool true]) (ascii "+1") = .ok (.bool true) ∧
        ¬Numeral (ascii "+1")) ∧
      (subvalue (.array [.null, .bool true]) (ascii " 1") = .ok (.bool true) ∧
        ¬Numeral (ascii " 1")) ∧
      (subvalue (.array [.null, .bool true]) (ascii "1" ++ [0, 120]) = .ok (.bool true) ∧
        ¬Numeral (ascii "1" ++ [0, 120])) ∧
      subvalue (.array [.null, .bool true]) (ascii "-18446744073709551615") = .ok (.bool true) ∧
        ¬Numeral (ascii "-18446744073709551615") :=
  ⟨⟨rfl, by decide⟩, ⟨rfl, by decide⟩, ⟨rfl, by decide⟩, rfl, by decide⟩

end Json

end BoostConnector
