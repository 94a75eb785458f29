import Longhand.Json.Cursor
import Longhand.Value

/-!
# Reading scalars

Numbers and strings are read from the bytes of a text one byte at a time.  Each
reader takes the cursor behind the byte that announced its literal and returns
the cursor behind the literal.  Loops are bounded by the bytes left, since each
round takes one at least.
-/

namespace Longhand.Json

/-- A reader takes a cursor and, unless the text is at fault, returns what it
read and the cursor behind it. -/
abbrev Reader (α : Type) := Cursor → Except Fault (α × Cursor)

/-- The value of a decimal digit. -/
def digit? (c : Char) : Option Nat :=
  if '0' ≤ c ∧ c ≤ '9' then some (c.toNat - 48) else none

/-- The next byte as a digit. -/
def Cursor.peekDigit? (c : Cursor) : Option Nat :=
  c.peek?.bind digit?

/-! ## Words -/

/-- Take the given characters; the first other byte is at fault. -/
def readWord : List Char → Cursor → Except Fault Cursor
  | [], c => .ok c
  | wanted :: rest, c =>
      match c.peek? with
      | none => .error (c.fault .endInValue)
      | some found =>
          if found = wanted then readWord rest c.next
          else .error (c.next.fault .expectedIdentifier)

/-! ## Numbers

A significand is collected as long as it fits into sixty-four bits.  Digits
behind that only move the decimal exponent, or are dropped after the point.
-/

/-- The largest significand. -/
def significandLimit : Nat := Nat.pow 2 64 - 1

/-- The largest exponent that is read off digit by digit. -/
def exponentLimit : Nat := Nat.pow 2 31 - 1

/-- Take the digits in front. -/
def Cursor.skipDigits (c : Cursor) : Cursor :=
  c.skipWhile fun ch => (digit? ch).isSome

/-- A double with a sign. -/
def signedDouble (negative : Bool) (d : Double) : Number :=
  .double (if negative then d.negate else d)

/-- The number of a significand and a decimal exponent. -/
def finishDouble (negative : Bool) (significand : Nat) (exponent : Int) :
    Reader Number := fun c =>
  match Double.ofDecimal? significand exponent with
  | some d => .ok (signedDouble negative d, c)
  | none => .error (c.fault .numberOutOfRange)

/-- Collect exponent digits.  An exponent past its limit makes a number too
large, or zero when the significand or the exponent's sign allows it. -/
def exponentDigits (negative positiveExponent : Bool) (significand : Nat)
    (start : Int) : Nat → Nat → Reader Number
  | 0, exponent, c =>
      finishDouble negative significand
        (if positiveExponent then start + exponent else start - exponent) c
  | rounds + 1, exponent, c =>
      match c.peekDigit? with
      | none =>
          finishDouble negative significand
            (if positiveExponent then start + exponent else start - exponent) c
      | some d =>
          if exponentLimit < exponent * 10 + d then
            if significand ≠ 0 ∧ positiveExponent then
              .error (c.next.fault .numberOutOfRange)
            else .ok (signedDouble negative .zero, c.skipDigits)
          else
            exponentDigits negative positiveExponent significand start rounds
              (exponent * 10 + d) c.next

/-- Read an exponent behind its letter. -/
def readExponent (negative : Bool) (significand : Nat) (start : Int) :
    Reader Number := fun c =>
  let positiveExponent := c.peek? ≠ some '-'
  let c := if c.peek? = some '+' ∨ c.peek? = some '-' then c.next else c
  match c.peek? with
  | none => .error (c.fault .endInValue)
  | some ch =>
      match digit? ch with
      | none => .error (c.next.fault .invalidNumber)
      | some d =>
          exponentDigits negative positiveExponent significand start
            c.left.length d c.next

/-- What may follow the digits of a fraction: an exponent or the end of the
number. -/
def afterFraction (negative : Bool) (significand : Nat) (exponent : Int) :
    Reader Number := fun c =>
  if c.peek? = some 'e' ∨ c.peek? = some 'E' then
    readExponent negative significand exponent c.next
  else finishDouble negative significand exponent c

/-- Collect the digits behind the point; `seen` tells whether there was one. -/
def fractionDigits (negative : Bool) :
    Nat → Bool → Nat → Int → Reader Number
  | 0, _, significand, exponent, c =>
      afterFraction negative significand exponent c
  | rounds + 1, seen, significand, exponent, c =>
      match c.peekDigit? with
      | some d =>
          if significandLimit < significand * 10 + d then
            afterFraction negative significand exponent c.skipDigits
          else
            fractionDigits negative rounds true (significand * 10 + d)
              (exponent - 1) c.next
      | none =>
          if seen then afterFraction negative significand exponent c
          else if c.peek?.isNone then .error (c.faultAhead .endInValue)
          else .error (c.faultAhead .invalidNumber)

/-- Read a fraction behind its point. -/
def readFraction (negative : Bool) (significand : Nat) (exponent : Int) :
    Reader Number := fun c =>
  fractionDigits negative (c.left.length + 1) false significand exponent c

/-- Take the digits that no longer fit the significand; each stands for a power
of ten. -/
def longInteger (negative : Bool) (significand : Nat) :
    Nat → Nat → Reader Number
  | 0, dropped, c => finishDouble negative significand dropped c
  | rounds + 1, dropped, c =>
      match c.peek? with
      | some '.' => readFraction negative significand dropped c.next
      | some 'e' => readExponent negative significand dropped c.next
      | some 'E' => readExponent negative significand dropped c.next
      | some ch =>
          if (digit? ch).isSome then
            longInteger negative significand rounds (dropped + 1) c.next
          else finishDouble negative significand dropped c
      | none => finishDouble negative significand dropped c

/-- An integer literal: exact when it fits, a double for a negative zero and
below the least integer. -/
def wholeNumber (negative : Bool) (significand : Nat) : Number :=
  if negative then
    if significand = 0 ∨ Nat.pow 2 63 < significand then
      signedDouble true (Double.ofNat significand)
    else .int (-(significand : Int))
  else .int significand

/-- What may follow the digits of an integer. -/
def afterInteger (negative : Bool) (significand : Nat) : Reader Number := fun c =>
  match c.peek? with
  | some '.' => readFraction negative significand 0 c.next
  | some 'e' => readExponent negative significand 0 c.next
  | some 'E' => readExponent negative significand 0 c.next
  | _ => .ok (wholeNumber negative significand, c)

/-- Collect the digits of an integer behind its first one. -/
def integerDigits (negative : Bool) : Nat → Nat → Reader Number
  | 0, significand, c => afterInteger negative significand c
  | rounds + 1, significand, c =>
      match c.peekDigit? with
      | some d =>
          if significandLimit < significand * 10 + d then
            longInteger negative significand (c.left.length + 1) 0 c
          else integerDigits negative rounds (significand * 10 + d) c.next
      | none => afterInteger negative significand c

/-- Read a number behind its sign. -/
def readNumber (negative : Bool) : Reader Number := fun c =>
  match c.peek? with
  | none => .error (c.fault .endInValue)
  | some ch =>
      match digit? ch with
      | none => .error (c.next.fault .invalidNumber)
      | some 0 =>
          if c.next.peekDigit?.isSome then
            .error (c.next.faultAhead .invalidNumber)
          else afterInteger negative 0 c.next
      | some d => integerDigits negative c.left.length d c.next

/-! ## Strings -/

/-- The value of a hexadecimal digit of either case. -/
def hexValue? (c : Char) : Option Nat :=
  if '0' ≤ c ∧ c ≤ '9' then some (c.toNat - 48)
  else if 'a' ≤ c ∧ c ≤ 'f' then some (c.toNat - 87)
  else if 'A' ≤ c ∧ c ≤ 'F' then some (c.toNat - 55)
  else none

/-- Read four hexadecimal digits; all four bytes are taken before they are
looked at. -/
def readHex : Reader Nat := fun c =>
  match c.left with
  | w :: x :: y :: z :: _ =>
      match [w, x, y, z].mapM fun b => hexValue? (Char.ofUInt8 b) with
      | some digits =>
          .ok (digits.foldl (fun n d => 16 * n + d) 0, c.advance 4)
      | none => .error ((c.advance 4).fault .invalidEscape)
  | rest => .error ((c.advance rest.length).fault .endInString)

/-- The bytes that encode a code point. -/
def codePointBytes (codePoint : Nat) : List UInt8 :=
  String.utf8EncodeChar (Char.ofNat codePoint)

/-- Take one expected character inside a surrogate pair. -/
def readPairMark (wanted : Char) (c : Cursor) : Except Fault Cursor :=
  match c.peek? with
  | none => .error (c.fault .endInString)
  | some found =>
      if found = wanted then .ok c.next
      else .error (c.next.fault .endOfHexEscape)

/-- Read an escape behind its `u`: a code point, or two surrogates that make up
one. -/
def readCodePoint : Reader (List UInt8) := fun c => do
  let (first, c) ← readHex c
  if 0xDC00 ≤ first ∧ first ≤ 0xDFFF then .error (c.fault .loneSurrogate)
  else if first < 0xD800 ∨ 0xDBFF < first then .ok (codePointBytes first, c)
  else
    let c ← readPairMark '\\' c
    let c ← readPairMark 'u' c
    let (second, c) ← readHex c
    if second < 0xDC00 ∨ 0xDFFF < second then .error (c.fault .loneSurrogate)
    else
      let codePoint := (first - 0xD800) * 0x400 + (second - 0xDC00) + 0x10000
      .ok (codePointBytes codePoint, c)

/-- Read an escape behind its backslash. -/
def readEscape : Reader (List UInt8) := fun c =>
  match c.peek? with
  | none => .error (c.fault .endInString)
  | some '"' => .ok ([34], c.next)
  | some '\\' => .ok ([92], c.next)
  | some '/' => .ok ([47], c.next)
  | some 'b' => .ok ([8], c.next)
  | some 'f' => .ok ([12], c.next)
  | some 'n' => .ok ([10], c.next)
  | some 'r' => .ok ([13], c.next)
  | some 't' => .ok ([9], c.next)
  | some 'u' => readCodePoint c.next
  | some _ => .error (c.next.fault .invalidEscape)

/-- Bytes as a text, if they encode one. -/
def decodeText? (bytes : List UInt8) : Option String :=
  String.fromUTF8? ⟨bytes.toArray⟩

/-- The length of the encoded character in front, if there is one. -/
def characterLength? (bytes : List UInt8) : Option Nat :=
  [1, 2, 3, 4].find? fun n =>
    bytes.length ≥ n && (decodeText? (bytes.take n)).isSome

/-- How many bytes in front encode characters.  The first argument bounds the
characters. -/
def encodedLength : Nat → List UInt8 → Nat
  | 0, _ => 0
  | rounds + 1, bytes =>
      match characterLength? bytes with
      | some n => n + encodedLength rounds (bytes.drop n)
      | none => 0

/-- Collect the bytes of a string, the last one first, up to its closing quote,
with escapes replaced by the bytes they stand for. -/
def stringBytes : Nat → List UInt8 → Reader (List UInt8)
  | 0, _, c => .error (c.fault .endInString)
  | rounds + 1, bytes, c =>
      match c.left with
      | [] => .error (c.fault .endInString)
      | byte :: _ =>
          if byte = 34 then .ok (bytes.reverse, c.next)
          else if byte = 92 then
            match readEscape c.next with
            | .ok (escaped, c) =>
                stringBytes rounds (escaped.reverse ++ bytes) c
            | .error fault => .error fault
          else if byte < 32 then .error (c.next.fault .controlCharacter)
          else stringBytes rounds (byte :: bytes) c.next

/-- Read a string behind its opening quote.  Whether the bytes encode a text is
looked at behind the closing quote; from there the position goes back by as many
bytes as stand, with escapes replaced, from the first one on that encodes
nothing. -/
def readString : Reader String := fun c => do
  let (bytes, behind) ← stringBytes (c.left.length + 1) [] c
  match decodeText? bytes with
  | some text => .ok (text, behind)
  | none =>
      let invalid := bytes.length - encodedLength bytes.length bytes
      let taken := c.left.length - behind.left.length
      .error ((c.advance (taken - invalid)).fault .invalidUnicode)

end Longhand.Json
