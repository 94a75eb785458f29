import Longhand.Json.Fault

/-!
# A place in a text

A cursor splits the bytes of a text into those taken and those left.  Lines and
columns are read off the bytes taken, so they count bytes and not characters.
-/

namespace Longhand.Json

/-- The bytes already taken, the last one first, and the bytes left. -/
structure Cursor where
  taken : List UInt8
  left : List UInt8
  deriving DecidableEq, Inhabited, Repr

namespace Cursor

/-- The start of a text. -/
def start (bytes : List UInt8) : Cursor := ⟨[], bytes⟩

/-- The next byte, seen as the character of the same number; bytes of longer
characters are never confused with an ASCII one. -/
def peek? (c : Cursor) : Option Char :=
  c.left.head?.map Char.ofUInt8

/-- Take one byte; at the end nothing happens. -/
def next (c : Cursor) : Cursor :=
  match c.left with
  | [] => c
  | byte :: rest => ⟨byte :: c.taken, rest⟩

/-- Take several bytes. -/
def advance (c : Cursor) : Nat → Cursor
  | 0 => c
  | n + 1 => c.next.advance n

/-- The position behind the last byte taken. -/
def position (c : Cursor) : Position :=
  { line := 1 + c.taken.count 10
    column := (c.taken.takeWhile (· ≠ 10)).length }

/-- A fault noticed behind the last byte taken. -/
def fault (c : Cursor) (problem : Problem) : Fault :=
  ⟨[], problem, c.position⟩

/-- A fault of the next byte, which is looked at and not taken. -/
def faultAhead (c : Cursor) (problem : Problem) : Fault :=
  ⟨[], problem, c.next.position⟩

/-- Take bytes while they satisfy a test, at most as many as the first argument
says. -/
def skip (test : Char → Bool) : Nat → Cursor → Cursor
  | 0, c => c
  | rounds + 1, c =>
      match c.peek? with
      | some ch => if test ch then c.next.skip test rounds else c
      | none => c

/-- Take bytes as long as they satisfy a test. -/
def skipWhile (c : Cursor) (test : Char → Bool) : Cursor :=
  c.skip test c.left.length

/-- The characters that may stand between the parts of a text. -/
def isBlank (c : Char) : Bool :=
  c = ' ' || c = '\n' || c = '\t' || c = '\r'

/-- Take the blanks in front. -/
def skipBlanks (c : Cursor) : Cursor :=
  c.skipWhile isBlank

end Cursor

end Longhand.Json
