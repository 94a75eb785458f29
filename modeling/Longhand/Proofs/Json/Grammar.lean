import Longhand.Json.Literal
import Mathlib.Data.List.Basic

/-!
# The texts of values

What a text has to look like to be the text of a value, without a word about how it is
read: number literals, strings, and arrays and objects that nest to a given depth.  A
text is a list of bytes, and bytes are named by the characters that they encode.
-/

namespace Longhand.Json

/-- The bytes of a text. -/
def bytesOf (text : String) : List UInt8 :=
  text.toByteArray.data.toList

/-- A text starts with a byte of some kind. -/
def StartsWith (kind : UInt8 → Prop) (bytes : List UInt8) : Prop :=
  ∃ byte rest, bytes = byte :: rest ∧ kind byte

@[simp]
theorem not_startsWith_nil {kind : UInt8 → Prop} : ¬StartsWith kind [] :=
  fun ⟨_, _, same, _⟩ => nomatch same

@[simp]
theorem startsWith_cons_iff {kind : UInt8 → Prop} {byte : UInt8} {rest : List UInt8} :
    StartsWith kind (byte :: rest) ↔ kind byte := by
  constructor
  · rintro ⟨first, others, same, isKind⟩
    cases same
    exact isKind
  · exact fun isKind => ⟨byte, rest, rfl, isKind⟩

instance {kind : UInt8 → Prop} [DecidablePred kind] : DecidablePred (StartsWith kind)
  | [] => isFalse not_startsWith_nil
  | byte :: _ => decidable_of_iff (kind byte) startsWith_cons_iff.symm

theorem StartsWith.imp {kind other : UInt8 → Prop} {bytes : List UInt8}
    (starts : StartsWith kind bytes) (implies : ∀ byte, kind byte → other byte) :
    StartsWith other bytes := by
  obtain ⟨byte, rest, rfl, isKind⟩ := starts
  exact ⟨byte, rest, rfl, implies byte isKind⟩

/-! ## Blanks -/

/-- A byte that may stand between the parts of a text. -/
def IsBlank (byte : UInt8) : Prop :=
  byte = ' '.toUInt8 ∨ byte = '\n'.toUInt8 ∨ byte = '\t'.toUInt8 ∨
    byte = '\r'.toUInt8

instance : DecidablePred IsBlank :=
  fun _ => inferInstanceAs (Decidable (_ ∨ _))

/-- Nothing but blanks. -/
def AllBlank (bytes : List UInt8) : Prop :=
  ∀ byte ∈ bytes, IsBlank byte

instance : DecidablePred AllBlank :=
  fun bytes => List.decidableBAll IsBlank bytes

theorem allBlank_nil : AllBlank [] :=
  List.forall_mem_nil _

theorem AllBlank.append {front back : List UInt8} (blankFront : AllBlank front)
    (blankBack : AllBlank back) : AllBlank (front ++ back) :=
  fun byte mem => (List.mem_append.mp mem).elim (blankFront byte) (blankBack byte)

/-! ## Numbers -/

/-- A decimal digit. -/
def IsDigit (byte : UInt8) : Prop :=
  '0'.toUInt8 ≤ byte ∧ byte ≤ '9'.toUInt8

instance : DecidablePred IsDigit :=
  fun _ => inferInstanceAs (Decidable (_ ∧ _))

/-- Nothing but digits. -/
def AllDigits (bytes : List UInt8) : Prop :=
  ∀ byte ∈ bytes, IsDigit byte

/-- The letter that announces an exponent. -/
def IsExponentLetter (byte : UInt8) : Prop :=
  byte = 'e'.toUInt8 ∨ byte = 'E'.toUInt8

instance : DecidablePred IsExponentLetter :=
  fun _ => inferInstanceAs (Decidable (_ ∨ _))

/-- The value of a digit. -/
def digitValue (byte : UInt8) : Nat :=
  byte.toNat - '0'.toNat

/-- Digits behind a number that was read already. -/
def digitsValue (start : Nat) (digits : List UInt8) : Nat :=
  digits.foldl (fun n byte => n * 10 + digitValue byte) start

/-- The exponent of a number literal. -/
structure Exponent where
  letter : UInt8
  sign : List UInt8
  digits : List UInt8
  isLetter : IsExponentLetter letter
  isSign : sign = [] ∨ sign = ['+'.toUInt8] ∨ sign = ['-'.toUInt8]
  areDigits : AllDigits digits
  notNone : digits ≠ []

/-- The letter, the sign and the digits. -/
def Exponent.text (exponent : Exponent) : List UInt8 :=
  exponent.letter :: (exponent.sign ++ exponent.digits)

/-- What follows the integer part of a number literal: the digits behind its point, and
its exponent.  There is no point without a digit behind it. -/
structure Tail where
  fraction : List UInt8
  exponent : Option Exponent
  areDigits : AllDigits fraction

namespace Tail

/-- An exponent alone, or nothing. -/
def ofExponent (exponent : Option Exponent) : Tail :=
  ⟨[], exponent, fun _ mem => nomatch mem⟩

/-- The text of an exponent, if there is one. -/
def exponentText (exponent : Option Exponent) : List UInt8 :=
  exponent.elim [] Exponent.text

/-- The point with its digits, and the exponent. -/
def text (tail : Tail) : List UInt8 :=
  (if tail.fraction = [] then [] else '.'.toUInt8 :: tail.fraction) ++
    exponentText tail.exponent

/-- A byte behind a number literal that would still belong to it. -/
def Continues (tail : Tail) (byte : UInt8) : Prop :=
  IsDigit byte ∨ tail.exponent = none ∧
    (IsExponentLetter byte ∨ tail.fraction = [] ∧ byte = '.'.toUInt8)

end Tail

/-- A number literal.  Its integer part starts with a zero only if it is one. -/
structure NumberLiteral where
  negative : Bool
  whole : List UInt8
  tail : Tail
  areDigits : AllDigits whole
  notNone : whole ≠ []
  noLeadingZero : ∀ rest, whole = '0'.toUInt8 :: rest → rest = []

/-- The sign, the integer part and what follows it. -/
def NumberLiteral.text (literal : NumberLiteral) : List UInt8 :=
  (if literal.negative then ['-'.toUInt8] else []) ++ literal.whole ++
    literal.tail.text

/-! ### The number of a literal

A significand takes in digits as long as it fits into sixty-four bits.  Digits of the
integer part behind that count as powers of ten, and those of the fraction not at
all. -/

/-- The significand, and the digits that no longer fit it. -/
def fitDigits : Nat → List UInt8 → Nat × List UInt8
  | significand, [] => (significand, [])
  | significand, byte :: rest =>
      if significandLimit < significand * 10 + digitValue byte then
        (significand, byte :: rest)
      else fitDigits (significand * 10 + digitValue byte) rest

/-- The double of a significand and an exponent with a sign.  Exponents past their limit
make zero, or a number that is too large. -/
def scaledBy? (negative positiveExponent : Bool) (significand : Nat) (start : Int)
    (exponent : Nat) : Option Number :=
  if exponentLimit < exponent then
    if significand ≠ 0 ∧ positiveExponent then none
    else some (signedDouble negative .zero)
  else
    (Double.ofDecimal? significand
      (if positiveExponent then start + exponent else start - exponent)).map
        (signedDouble negative)

/-- The double of a significand, a power of ten and the exponent of a literal. -/
def scaled? (negative : Bool) (significand : Nat) (start : Int) :
    Option Exponent → Option Number
  | none => (Double.ofDecimal? significand start).map (signedDouble negative)
  | some exponent =>
      scaledBy? negative (exponent.sign ≠ ['-'.toUInt8]) significand start
        (digitsValue 0 exponent.digits)

/-- The double of a significand, of digits that did not fit it and what follows them. -/
def Tail.double? (tail : Tail) (negative : Bool) (significand dropped : Nat) :
    Option Number :=
  let fitted := fitDigits significand tail.fraction
  scaled? negative fitted.1
    (dropped - ((tail.fraction.length - fitted.2.length : Nat) : Int)) tail.exponent

/-- The number of an integer part, fitted into a significand, and what follows it: an
integer where all digits fit and nothing follows. -/
def Tail.number? (tail : Tail) (negative : Bool)
    (fitted : Nat × List UInt8) : Option Number :=
  if fitted.2 = [] ∧ tail.text = [] then some (wholeNumber negative fitted.1)
  else tail.double? negative fitted.1 fitted.2.length

/-- The number that a literal stands for, unless it is too large. -/
def NumberLiteral.number? (literal : NumberLiteral) : Option Number :=
  literal.tail.number? literal.negative (fitDigits 0 literal.whole)

/-! ## Strings -/

/-- The number that four hexadecimal digits stand for. -/
def hexNumber? (digits : List UInt8) : Option Nat :=
  if digits.length = 4 then
    (digits.mapM fun byte => hexValue? (Char.ofUInt8 byte)).map
      (List.foldl (fun n d => 16 * n + d) 0)
  else none

/-- The letters behind a backslash and the characters that they stand for. -/
def escapes : List (Char × Char) :=
  [('"', '"'), ('\\', '\\'), ('/', '/'), ('b', '\x08'), ('f', '\x0c'),
    ('n', '\n'), ('r', '\r'), ('t', '\t')]

/-- What may stand behind a backslash, and the bytes that it stands for: a letter, a code
point, or two surrogates that make up one. -/
inductive Escape : List UInt8 → List UInt8 → Prop
  | letter {byte : UInt8} {char : Char}
      (isLetter : escapes.lookup (Char.ofUInt8 byte) = some char) :
      Escape [byte] [char.toUInt8]
  | codePoint {digits : List UInt8} {n : Nat} (isNumber : hexNumber? digits = some n)
      (noSurrogate : n < 0xD800 ∨ 0xDFFF < n) :
      Escape ('u'.toUInt8 :: digits) (codePointBytes n)
  | surrogates {high low : List UInt8} {first second : Nat}
      (isFirst : hexNumber? high = some first)
      (isSecond : hexNumber? low = some second)
      (firstInRange : 0xD800 ≤ first ∧ first ≤ 0xDBFF)
      (secondInRange : 0xDC00 ≤ second ∧ second ≤ 0xDFFF) :
      Escape ('u'.toUInt8 :: high ++ '\\'.toUInt8 :: 'u'.toUInt8 :: low)
        (codePointBytes
          ((first - 0xD800) * 0x400 + (second - 0xDC00) + 0x10000))

/-- What may stand between two quotes, and the bytes that it stands for. -/
inductive Quoted : List UInt8 → List UInt8 → Prop
  | nil : Quoted [] []
  | byte {byte : UInt8} {raw bytes : List UInt8} (noQuote : byte ≠ '"'.toUInt8)
      (noBackslash : byte ≠ '\\'.toUInt8) (noControl : ' '.toUInt8 ≤ byte)
      (others : Quoted raw bytes) : Quoted (byte :: raw) (byte :: bytes)
  | escape {escape raw char bytes : List UInt8} (isEscape : Escape escape char)
      (others : Quoted raw bytes) :
      Quoted ('\\'.toUInt8 :: escape ++ raw) (char ++ bytes)

/-- A quoted text.  The bytes that its quotes enclose stand for those of the text. -/
inductive StringText : List UInt8 → String → Prop
  | quoted {raw : List UInt8} {text : String} (isQuoted : Quoted raw (bytesOf text)) :
      StringText ('"'.toUInt8 :: raw ++ ['"'.toUInt8]) text

/-! ## Values -/

/-- The text of a value that has no parts. -/
inductive ScalarText : List UInt8 → Value → Prop
  | null : ScalarText (['n', 'u', 'l', 'l'].map Char.toUInt8) .null
  | true : ScalarText (['t', 'r', 'u', 'e'].map Char.toUInt8) (.bool true)
  | false : ScalarText (['f', 'a', 'l', 's', 'e'].map Char.toUInt8) (.bool false)
  | number {literal : NumberLiteral} {n : Number}
      (isNumber : literal.number? = some n) : ScalarText literal.text (.number n)
  | string {body : List UInt8} {text : String} (isString : StringText body text) :
      ScalarText body (.string text)

variable {α : Type}

/-- What stands in front of a part of a list: blanks, and a comma among them unless it is
the first part. -/
inductive Gap : Bool → List UInt8 → Prop
  | first {blanks : List UInt8} (blank : AllBlank blanks) : Gap true blanks
  | further {before behind : List UInt8} (blankBefore : AllBlank before)
      (blankBehind : AllBlank behind) : Gap false (before ++ ','.toUInt8 :: behind)

/-- A list behind its opening bracket, or what is left of it behind its first parts. -/
inductive Parts (close : Char) (Part : List UInt8 → α → Prop) :
    Bool → List UInt8 → List α → Prop
  | nil {first : Bool} {gap : List UInt8} (blank : AllBlank gap) :
      Parts close Part first (gap ++ [close.toUInt8]) []
  | cons {first : Bool} {gap body text : List UInt8} {part : α} {parts : List α}
      (isGap : Gap first gap) (isPart : Part body part)
      (others : Parts close Part false text parts) :
      Parts close Part first (gap ++ (body ++ text)) (part :: parts)

/-- A member of an object: a key, a colon and a value. -/
inductive MemberText (Inner : List UInt8 → α → Prop) :
    List UInt8 → String × α → Prop
  | member {quoted before behind body : List UInt8} {key : String} {value : α}
      (isKey : StringText quoted key) (blankBefore : AllBlank before)
      (blankBehind : AllBlank behind) (isValue : Inner body value) :
      MemberText Inner
        (quoted ++ (before ++ ':'.toUInt8 :: (behind ++ body))) (key, value)

/-- The text of a value whose parts have texts of some kind.  Of members with one key the
last counts. -/
inductive ValueText (Inner : List UInt8 → Value → Prop) :
    List UInt8 → Value → Prop
  | scalar {body : List UInt8} {value : Value} (isScalar : ScalarText body value) :
      ValueText Inner body value
  | array {text : List UInt8} {items : List Value}
      (areItems : Parts ']' Inner true text items) :
      ValueText Inner ('['.toUInt8 :: text) (.array items)
  | object {text : List UInt8} {pairs : List (String × Value)}
      (areMembers : Parts '\x7d' (MemberText Inner) true text pairs) :
      ValueText Inner ('\x7b'.toUInt8 :: text) (.object (Members.ofPairs pairs))

/-- A text is that of a value in which arrays and objects nest at most so deep. -/
def Denotes : Nat → List UInt8 → Value → Prop
  | 0 => ScalarText
  | room + 1 => ValueText (Denotes room)

/-! ## Where a text ends -/

/-- A text starts like a number. -/
def StartsNumber (bytes : List UInt8) : Prop :=
  StartsWith (fun byte => IsDigit byte ∨ byte = '-'.toUInt8) bytes

/-- A byte behind the text of a value that would still belong to it.  Only numbers go on:
with digits, with an exponent unless they have one, and with a point unless they have
either. -/
def GoesOn (body : List UInt8) (byte : UInt8) : Prop :=
  StartsNumber body ∧
    (IsDigit byte ∨ (∀ other ∈ body, ¬IsExponentLetter other) ∧
      (IsExponentLetter byte ∨
        '.'.toUInt8 ∉ body ∧ byte = '.'.toUInt8))

/-- The text of a value ends where nothing that follows would still belong to it. -/
def Ends (body after : List UInt8) : Prop :=
  ¬StartsWith (GoesOn body) after

end Longhand.Json
