import Longhand.Value
import Longhand.Number.Layout

/-!
# Writing documents as JSON

Compact text has no blanks.  Pretty text puts each item and member on a line of
its own, indented by two spaces for each level, and keeps empty arrays and
objects on one line.  Both write members in their order and escape only quotes,
backslashes and control characters.
-/

namespace Longhand.Json

/-- Positional notation from `0.00001` up to sixteen places before the point;
a positive exponent carries its sign. -/
def numberLayout : Layout := ⟨-5, 16, true⟩

/-- The text of a number. -/
def numberText : Number → String
  | .int value => toString value
  | .double value => numberLayout.write value

/-- The lower-case hexadecimal digit of a number below sixteen. -/
def hexDigit (n : Nat) : Char :=
  if n < 10 then Char.ofNat (48 + n) else Char.ofNat (87 + n)

/-- How a character is written inside a string. -/
def escapeChar (c : Char) : List Char :=
  if c = '"' then ['\\', '"']
  else if c = '\\' then ['\\', '\\']
  else if c = '\x08' then ['\\', 'b']
  else if c = '\x0c' then ['\\', 'f']
  else if c = '\n' then ['\\', 'n']
  else if c = '\r' then ['\\', 'r']
  else if c = '\t' then ['\\', 't']
  else if c.toNat < 32 then
    ['\\', 'u', '0', '0', hexDigit (c.toNat / 16), hexDigit (c.toNat % 16)]
  else [c]

/-- A string between its quotes. -/
def quote (text : String) : String :=
  "\"" ++ String.ofList (text.toList.flatMap escapeChar) ++ "\""

/-! ## Compact text -/

mutual
/-- A value without any blanks. -/
def compact : Value → String
  | .null => "null"
  | .bool true => "true"
  | .bool false => "false"
  | .number n => numberText n
  | .string text => quote text
  | .array [] => "[]"
  | .array (item :: rest) => "[" ++ compact item ++ compactItems rest ++ "]"
  | .object [] => "\x7b\x7d"
  | .object ((key, value) :: rest) =>
      "\x7b" ++ quote key ++ ":" ++ compact value ++ compactMembers rest ++
        "\x7d"

/-- Further items, each behind a comma. -/
def compactItems : List Value → String
  | [] => ""
  | item :: rest => "," ++ compact item ++ compactItems rest

/-- Further members, each behind a comma. -/
def compactMembers : List (String × Value) → String
  | [] => ""
  | (key, value) :: rest =>
      "," ++ quote key ++ ":" ++ compact value ++ compactMembers rest
end

/-! ## Pretty text -/

/-- A new line indented to a level. -/
def newline (level : Nat) : String :=
  "\n" ++ String.ofList (List.replicate (2 * level) ' ')

mutual
/-- A value whose own text stands at this level of indentation. -/
def prettyAt (level : Nat) : Value → String
  | .null => "null"
  | .bool true => "true"
  | .bool false => "false"
  | .number n => numberText n
  | .string text => quote text
  | .array [] => "[]"
  | .array (item :: rest) =>
      "[" ++ newline (level + 1) ++ prettyAt (level + 1) item ++
        prettyItems (level + 1) rest ++ newline level ++ "]"
  | .object [] => "\x7b\x7d"
  | .object ((key, value) :: rest) =>
      "\x7b" ++ newline (level + 1) ++ quote key ++ ": " ++
        prettyAt (level + 1) value ++ prettyMembers (level + 1) rest ++
        newline level ++ "\x7d"

/-- Further items, each on a line of its own. -/
def prettyItems (level : Nat) : List Value → String
  | [] => ""
  | item :: rest =>
      "," ++ newline level ++ prettyAt level item ++ prettyItems level rest

/-- Further members, each on a line of its own. -/
def prettyMembers (level : Nat) : List (String × Value) → String
  | [] => ""
  | (key, value) :: rest =>
      "," ++ newline level ++ quote key ++ ": " ++ prettyAt level value ++
        prettyMembers level rest
end

/-- A value over several lines. -/
def pretty (value : Value) : String :=
  prettyAt 0 value

end Longhand.Json
