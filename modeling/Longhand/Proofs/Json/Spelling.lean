import Longhand.Json.Printer
import Longhand.Proofs.Json.Number
import Mathlib.Algebra.Group.Int.Defs

/-!
# Spelling scalars

The text that is written for a string, or for an integer that fits into sixty-four bits,
is a text of that scalar.
-/

namespace Longhand.Json

variable {char : Char} {byte : UInt8} {raw bytes : List UInt8}

/-! ## Bytes of texts -/

theorem bytesOf_append (text other : String) :
    bytesOf (text ++ other) = bytesOf text ++ bytesOf other := by
  simp [bytesOf, String.toByteArray_append]

theorem bytesOf_ofList (chars : List Char) :
    bytesOf (String.ofList chars) = chars.flatMap String.utf8EncodeChar := by
  simp [bytesOf, String.toByteArray_ofList, List.utf8Encode]

theorem bytesOf_eq_flatMap (text : String) :
    bytesOf text = text.toList.flatMap String.utf8EncodeChar := by
  rw [← bytesOf_ofList, String.ofList_toList]

theorem utf8EncodeChar_of_ascii (ascii : char.toNat < 128) :
    String.utf8EncodeChar char = [char.toUInt8] := by
  have small : char.val.toNat ≤ 0x7f := Nat.le_of_lt_succ ascii
  rw [String.utf8EncodeChar, if_pos small, UInt8.ofNat_uInt32ToNat]
  rfl

theorem flatMap_utf8EncodeChar_of_ascii {chars : List Char}
    (ascii : AllBelow 128 chars) :
    chars.flatMap String.utf8EncodeChar = chars.map Char.toUInt8 := by
  induction chars with
  | nil => rfl
  | cons char chars ih =>
      rw [AllBelow, List.forall_mem_cons] at ascii
      rw [List.flatMap_cons, utf8EncodeChar_of_ascii ascii.1, ih ascii.2, List.map_cons,
        List.singleton_append]

/-- The bytes of other characters are larger than those of characters in ASCII. -/
theorem le_of_mem_utf8EncodeChar (notAscii : 128 ≤ char.toNat)
    (mem : byte ∈ String.utf8EncodeChar char) : 128 ≤ byte.toNat := by
  have large : ¬char.val.toNat ≤ 0x7f := Nat.not_le.mpr notAscii
  have marked {n mark : Nat} (isMark : 128 ≤ mark) (fits : n + mark < 256) :
      128 ≤ (UInt8.ofNat (n + mark)).toNat := by
    rw [UInt8.toNat_ofNat', Nat.mod_eq_of_lt fits]
    omega
  rw [String.utf8EncodeChar, if_neg large] at mem
  split at mem
  · simp only [List.mem_cons, List.not_mem_nil, or_false] at mem
    rcases mem with rfl | rfl <;> exact marked (by omega) (by omega)
  · split at mem
    · simp only [List.mem_cons, List.not_mem_nil, or_false] at mem
      rcases mem with rfl | rfl | rfl <;> exact marked (by omega) (by omega)
    · simp only [List.mem_cons, List.not_mem_nil, or_false] at mem
      rcases mem with rfl | rfl | rfl | rfl <;> exact marked (by omega) (by omega)

/-! ## Strings -/

/-- Bytes other than quotes, backslashes and control characters stand for themselves. -/
theorem quoted_append {plain : List UInt8}
    (arePlain : ∀ byte ∈ plain,
      byte ≠ '"'.toUInt8 ∧ byte ≠ '\\'.toUInt8 ∧ ' '.toUInt8 ≤ byte)
    (others : Quoted raw bytes) : Quoted (plain ++ raw) (plain ++ bytes) := by
  induction plain with
  | nil => exact others
  | cons byte plain ih =>
      rw [List.forall_mem_cons] at arePlain
      obtain ⟨⟨noQuote, noBackslash, noControl⟩, arePlain⟩ := arePlain
      exact .byte noQuote noBackslash noControl (ih arePlain)

theorem quoted_letter {letter : Char} (isLetter : escapes.lookup letter = some char)
    (letterAscii : letter.toNat < 128) (charAscii : char.toNat < 128)
    (others : Quoted raw bytes) :
    Quoted (['\\', letter].flatMap String.utf8EncodeChar ++ raw)
      (String.utf8EncodeChar char ++ bytes) := by
  have ascii : AllBelow 128 ['\\', letter] := by simpa [AllBelow] using letterAscii
  rw [flatMap_utf8EncodeChar_of_ascii ascii, utf8EncodeChar_of_ascii charAscii]
  rw [← ofUInt8_toUInt8 (Nat.lt_trans letterAscii (by decide))] at isLetter
  exact .escape (.letter isLetter) others

/-- A control character is written as its number in hexadecimal digits. -/
theorem quoted_control (control : char.toNat < 32) (others : Quoted raw bytes) :
    Quoted
      (['\\', 'u', '0', '0', hexDigit (char.toNat / 16),
        hexDigit (char.toNat % 16)].flatMap String.utf8EncodeChar ++ raw)
      (String.utf8EncodeChar char ++ bytes) := by
  have all : ∀ n < 32,
      hexNumber? (['0', '0', hexDigit (n / 16), hexDigit (n % 16)].map Char.toUInt8) =
          some n ∧
        AllBelow 128 ['\\', 'u', '0', '0', hexDigit (n / 16), hexDigit (n % 16)] := by
    decide
  obtain ⟨isNumber, ascii⟩ := all char.toNat control
  have isChar : codePointBytes char.toNat = String.utf8EncodeChar char := by
    rw [codePointBytes, Char.ofNat_toNat]
  rw [flatMap_utf8EncodeChar_of_ascii ascii, ← isChar]
  exact .escape (.codePoint isNumber (by omega)) others

theorem quoted_escapeChar (char : Char) (others : Quoted raw bytes) :
    Quoted ((escapeChar char).flatMap String.utf8EncodeChar ++ raw)
      (String.utf8EncodeChar char ++ bytes) := by
  unfold escapeChar
  split_ifs with isQuote isBackslash isB isF isN isR isT control
  · subst isQuote
    exact quoted_letter (by decide) (by decide) (by decide) others
  · subst isBackslash
    exact quoted_letter (by decide) (by decide) (by decide) others
  · exact isB ▸ quoted_letter (by decide) (by decide) (by decide) others
  · exact isF ▸ quoted_letter (by decide) (by decide) (by decide) others
  · exact isN ▸ quoted_letter (by decide) (by decide) (by decide) others
  · exact isR ▸ quoted_letter (by decide) (by decide) (by decide) others
  · exact isT ▸ quoted_letter (by decide) (by decide) (by decide) others
  · exact quoted_control control others
  · rw [List.flatMap_cons, List.flatMap_nil, List.append_nil]
    refine quoted_append (fun byte mem => ?_) others
    by_cases ascii : char.toNat < 128
    · rw [utf8EncodeChar_of_ascii ascii, List.mem_singleton] at mem
      have same := ofUInt8_toUInt8 (Nat.lt_trans ascii (by decide))
      rw [← mem] at same
      refine ⟨?_, ?_, ?_⟩
      · rintro rfl
        exact isQuote same.symm
      · rintro rfl
        exact isBackslash same.symm
      · rw [UInt8.le_iff_toNat_le, ← toNat_ofUInt8 byte, same]
        exact Nat.not_lt.mp control
    · have large := le_of_mem_utf8EncodeChar (Nat.not_lt.mp ascii) mem
      refine ⟨?_, ?_, ?_⟩
      · rintro rfl
        exact absurd large (by decide)
      · rintro rfl
        exact absurd large (by decide)
      · exact UInt8.le_iff_toNat_le.mpr (Nat.le_trans (by decide) large)

theorem quoted_escaped (chars : List Char) :
    Quoted ((chars.flatMap escapeChar).flatMap String.utf8EncodeChar)
      (chars.flatMap String.utf8EncodeChar) := by
  induction chars with
  | nil => exact .nil
  | cons char chars ih =>
      rw [List.flatMap_cons, List.flatMap_append, List.flatMap_cons]
      exact quoted_escapeChar char ih

/-- What is written for a string is a text of it. -/
theorem stringText_quote (text : String) : StringText (bytesOf (quote text)) text := by
  have isQuoted := quoted_escaped text.toList
  rw [← bytesOf_eq_flatMap, ← bytesOf_ofList] at isQuoted
  rw [quote, bytesOf_append, bytesOf_append]
  exact .quoted isQuoted

/-! ## Integers -/

theorem toNat_toUInt8 (isByte : char.toNat < 256) : char.toUInt8.toNat = char.toNat := by
  rw [← toNat_ofUInt8, ofUInt8_toUInt8 isByte]

theorem isDigit_toUInt8 (isDigit : char.isDigit = true) :
    char.toNat < 128 ∧ IsDigit char.toUInt8 := by
  have range : 48 ≤ char.toNat ∧ char.toNat ≤ 57 := by
    simpa [Char.isDigit, UInt32.le_iff_toNat_le] using isDigit
  have same := toNat_toUInt8 (show char.toNat < 256 by omega)
  refine ⟨by omega, UInt8.le_iff_toNat_le.mpr ?_, UInt8.le_iff_toNat_le.mpr ?_⟩
  · exact same ▸ range.1
  · exact same ▸ range.2

theorem isDigit_of_mem_toDigits {n : Nat} (mem : char ∈ Nat.toDigits 10 n) :
    char.isDigit = true :=
  Nat.isDigit_of_mem_toDigits (show 0 < 10 by decide) (Nat.le_refl 10) mem

/-- The digits of a number in decimal notation. -/
def decimalDigits (n : Nat) : List UInt8 :=
  (Nat.toDigits 10 n).map Char.toUInt8

theorem allDigits_decimalDigits (n : Nat) : AllDigits (decimalDigits n) := by
  intro byte mem
  obtain ⟨char, isDigit, rfl⟩ := List.mem_map.mp mem
  exact (isDigit_toUInt8 (isDigit_of_mem_toDigits isDigit)).2

theorem digitsValue_decimalDigits (n : Nat) : digitsValue 0 (decimalDigits n) = n := by
  have same (start : Nat) (chars : List Char) (digits : ∀ char ∈ chars, char.isDigit = true) :
      digitsValue start (chars.map Char.toUInt8) = Nat.ofDigitChars 10 chars start := by
    induction chars generalizing start with
    | nil => exact (Nat.ofDigitChars_nil).symm
    | cons char chars ih =>
        rw [List.forall_mem_cons] at digits
        have ascii := (isDigit_toUInt8 digits.1).1
        rw [List.map_cons, digitsValue_cons, ih _ digits.2, Nat.ofDigitChars_cons, digitValue,
          toNat_toUInt8 (Nat.lt_trans ascii (by decide)), Nat.mul_comm]
  rw [decimalDigits, same, Nat.ofDigitChars_ten_toDigits]
  exact fun _ => isDigit_of_mem_toDigits

/-- Only the number zero starts with a zero. -/
theorem toDigits_ne_zero_cons {n : Nat} (positive : 0 < n) (rest : List Char) :
    Nat.toDigits 10 n ≠ '0' :: rest := by
  induction n using Nat.strongRecOn generalizing rest with
  | ind n ih =>
      intro same
      rw [Nat.toDigits_eq_if (by decide)] at same
      split at same
      · next small =>
        have isZero := Nat.digitChar_eq_zero.mp (List.cons.inj same).1
        omega
      · next large =>
        obtain ⟨first, others, front⟩ :=
          List.exists_cons_of_ne_nil (Nat.toDigits_ne_nil (n := n / 10) (b := 10))
        rw [front, List.cons_append, List.cons.injEq] at same
        rw [same.1] at front
        exact ih (n / 10) (by omega) (by omega) others front

/-- A number in decimal notation, with a sign. -/
def decimal (negative : Bool) (n : Nat) : NumberLiteral where
  negative := negative
  whole := decimalDigits n
  tail := Tail.ofExponent none
  areDigits := allDigits_decimalDigits n
  notNone := by simp [decimalDigits]
  noLeadingZero := by
    intro rest same
    rcases Nat.eq_zero_or_pos n with rfl | positive
    · exact (List.cons.inj same).2.symm
    obtain ⟨first, others, digits⟩ :=
      List.exists_cons_of_ne_nil (Nat.toDigits_ne_nil (n := n) (b := 10))
    have mem : first ∈ Nat.toDigits 10 n := digits ▸ List.mem_cons_self ..
    have ascii := (isDigit_toUInt8 (isDigit_of_mem_toDigits mem)).1
    rw [decimalDigits, digits, List.map_cons, List.cons.injEq] at same
    have isZero : first = '0' := by
      rw [← ofUInt8_toUInt8 (Nat.lt_trans ascii (by decide)), same.1]
      rfl
    exact absurd (isZero ▸ digits) (toDigits_ne_zero_cons positive others)

theorem fitDigits_of_le {significand : Nat} {digits : List UInt8}
    (fits : digitsValue significand digits ≤ significandLimit) :
    fitDigits significand digits = (digitsValue significand digits, []) := by
  induction digits generalizing significand with
  | nil => rfl
  | cons byte digits ih =>
      rw [digitsValue_cons] at fits ⊢
      rw [fitDigits_cons_of_fits (Nat.le_trans (le_digitsValue _ digits) fits), ih fits]

theorem number?_decimal {negative : Bool} {n : Nat} (fits : n ≤ significandLimit) :
    (decimal negative n).number? = some (wholeNumber negative n) := by
  have allFit : fitDigits 0 (decimalDigits n) = (n, []) := by
    rw [fitDigits_of_le (by rwa [digitsValue_decimalDigits]), digitsValue_decimalDigits]
  rw [NumberLiteral.number?, decimal, allFit, Tail.number?_of_fits]
  rfl

theorem text_decimal (negative : Bool) (n : Nat) :
    (decimal negative n).text =
      (if negative then ['-'.toUInt8] else []) ++ bytesOf n.repr := by
  have ascii : AllBelow 128 (Nat.toDigits 10 n) :=
    fun _ mem => (isDigit_toUInt8 (isDigit_of_mem_toDigits mem)).1
  rw [Nat.repr_eq_ofList_toDigits, bytesOf_ofList, flatMap_utf8EncodeChar_of_ascii ascii]
  exact List.append_nil _

/-- The integers that are read exactly. -/
def IsExact (n : Int) : Prop :=
  -2 ^ 63 ≤ n ∧ n < 2 ^ 64

theorem scalarText_numberText {n : Int} (isExact : IsExact n) :
    ScalarText (bytesOf (numberText (.int n))) (.number (.int n)) := by
  rw [numberText, Int.toString_eq_repr, Int.repr_eq_if]
  split
  · next nonnegative =>
    obtain ⟨m, rfl⟩ := Int.eq_ofNat_of_zero_le nonnegative
    have fits : m ≤ significandLimit := by
      have := isExact.2
      simp only [significandLimit, Nat.pow_eq]
      omega
    have isNumber : (decimal false m).number? = some (.int m) := number?_decimal fits
    have text := text_decimal false m
    rw [if_neg Bool.false_ne_true, List.nil_append] at text
    rw [Int.toNat_natCast, ← text]
    exact .number isNumber
  · next negative =>
    obtain ⟨m, rfl⟩ : ∃ m : Nat, n = -((m + 1 : Nat) : Int) := ⟨(-n).toNat - 1, by omega⟩
    have small : m + 1 ≤ Nat.pow 2 63 := by
      have := isExact.1
      simp only [Nat.pow_eq]
      omega
    have isWhole : wholeNumber true (m + 1) = .int (-((m + 1 : Nat) : Int)) := by
      have inRange : ¬(m + 1 = 0 ∨ Nat.pow 2 63 < m + 1) := by
        rintro (isZero | large)
        · exact Nat.succ_ne_zero m isZero
        · exact Nat.not_lt.mpr small large
      exact if_neg inRange
    have isNumber :
        (decimal true (m + 1)).number? = some (.int (-((m + 1 : Nat) : Int))) := by
      rw [← isWhole]
      exact number?_decimal (Nat.le_trans small (by decide))
    have text := text_decimal true (m + 1)
    rw [if_pos rfl] at text
    rw [Int.neg_neg, Int.toNat_natCast, bytesOf_append]
    exact text ▸ .number isNumber

end Longhand.Json
