import Longhand.Query.Quantity
import Longhand.Text.Blank

/-!
# The words of an expression

Blanks and comments separate tokens.  A string is a run of tokens of its own: its
quotes, the text between them, and around every interpolated expression a pair
of marks, so the tokens of a whole program are a flat list.
-/

namespace Longhand.Query

/-- A token of an expression. -/
inductive Token where
  | number (text : String)
  | word (name : String)
  | variable (name : String)
  | format (name : String)
  /-- A point with a name glued to it. -/
  | field (name : String)
  /-- A token that is looked up among the names behind a qualifier. -/
  | qualified (qualifier : String) (token : Token)
  | sign (text : String)
  | openText
  | chunk (text : String)
  | openHole
  | closeHole
  | closeText
  deriving DecidableEq, Inhabited, Repr

namespace Token

/-- Whether a name can begin with a character. -/
def beginsName (c : Char) : Bool :=
  c.isAlpha || c = '_'

/-- Whether a name can go on with a character. -/
def continuesName (c : Char) : Bool :=
  c.isAlphanum || c = '_'

/-- The signs of more than one character; one that goes on with another of them
stands in front of it. -/
def longSigns : List String :=
  [ "//=", "|=", "+=", "-=", "*=", "/=", "%=", "==", "!=", "<=", ">=", "//",
    ".." ]

/-- The signs of one character. -/
def shortSigns : String := "|,=<>+-*/%:;?.()[]\x7b\x7d"

/-- The longest sign at the beginning of a text, and the rest. -/
def sign? (cs : List Char) : Option (String × List Char) :=
  match longSigns.find? fun text => text.toList.isPrefixOf cs with
  | some text => some (text, cs.drop text.length)
  | none =>
      match cs with
      | c :: rest =>
          if shortSigns.toList.contains c then some (String.ofList [c], rest)
          else none
      | [] => none

/-- What comes behind a comment.  A comment ends with its line, unless an odd
number of backslashes ends the line.  The number counts the backslashes just
before the text; a carriage return at the end of the line does not stand between
them and the end. -/
def skipComment (slashes : Nat) : List Char → List Char
  | [] => []
  | c :: rest =>
      if c = '\n' then
        if slashes % 2 = 1 then skipComment 0 rest else rest
      else if c = '\\' then skipComment (slashes + 1) rest
      else if c = '\r' && rest.head? = some '\n' then skipComment slashes rest
      else skipComment 0 rest

/-- The digits at the beginning, of which there has to be one. -/
def digits? (cs : List Char) : Option (List Char × List Char) :=
  match cs.takeWhile Char.isDigit with
  | [] => none
  | digits => some (digits, cs.dropWhile Char.isDigit)

/-- The number at the beginning of a text: digits, a fraction, an exponent. -/
def number? (cs : List Char) : Option (List Char × List Char) := do
  let (whole, cs) ← digits? cs
  let (fraction, cs) ←
    match cs with
    | '.' :: rest => (digits? rest).map fun (ds, rest) => ('.' :: ds, rest)
    | _ => some ([], cs)
  let (power, cs) ← exponent cs
  some (whole ++ fraction ++ power, cs)
where
  /-- The exponent at the beginning of a text, if there is one. -/
  exponent (cs : List Char) : Option (List Char × List Char) :=
    match cs with
    | mark :: rest =>
        if mark = 'e' || mark = 'E' then
          match rest with
          | '+' :: rest =>
              (digits? rest).map fun (ds, rest) => (mark :: '+' :: ds, rest)
          | '-' :: rest =>
              (digits? rest).map fun (ds, rest) => (mark :: '-' :: ds, rest)
          | _ => (digits? rest).map fun (ds, rest) => (mark :: ds, rest)
        else some ([], cs)
    | [] => some ([], cs)

/-- The name at the beginning of a text. -/
def name? (cs : List Char) : Option (String × List Char) :=
  match cs with
  | c :: _ =>
      if beginsName c then
        some (String.ofList (cs.takeWhile continuesName),
          cs.dropWhile continuesName)
      else none
  | [] => none

/-- The word, the variable or the format at the beginning of a text. -/
def named? (cs : List Char) : Option (Token × List Char) :=
  match cs with
  | '$' :: rest => (name? rest).map fun (name, rest) => (.variable name, rest)
  | '@' :: rest => (name? rest).map fun (name, rest) => (.format name, rest)
  | _ => (name? cs).map fun (name, rest) => (.word name, rest)

/-- The word at the beginning of a text; behind two colons it qualifies what they
lead to. -/
def word? (cs : List Char) : Option (Token × List Char) := do
  let (name, rest) ← name? cs
  match rest with
  | ':' :: ':' :: rest =>
      let (token, rest) ← named? rest
      some (.qualified name token, rest)
  | _ => some (.word name, rest)

/-- The number below sixteen that a hexadecimal digit stands for. -/
def hexValue? (c : Char) : Option Nat :=
  if c.isDigit then some (c.toNat - 48)
  else if 'a' ≤ c ∧ c ≤ 'f' then some (c.toNat - 87)
  else if 'A' ≤ c ∧ c ≤ 'F' then some (c.toNat - 55)
  else none

/-- The character that an escape stands for, and the rest. -/
def escape? (cs : List Char) : Option (Char × List Char) :=
  match cs with
  | 'b' :: rest => some ('\x08', rest)
  | 'f' :: rest => some ('\x0c', rest)
  | 'n' :: rest => some ('\n', rest)
  | 'r' :: rest => some ('\r', rest)
  | 't' :: rest => some ('\t', rest)
  | 'u' :: a :: b :: c :: d :: rest => do
      let a ← hexValue? a
      let b ← hexValue? b
      let c ← hexValue? c
      let d ← hexValue? d
      let code := ((a * 16 + b) * 16 + c) * 16 + d
      if code.isValidChar then some (Char.ofNat code, rest) else none
  | c :: rest =>
      if c = '"' || c = '\\' || c = '/' then some (c, rest) else none
  | [] => none

/-- How the text of a string goes on behind a chunk. -/
inductive Ending where
  /-- The string ends. -/
  | quote
  /-- An interpolated expression begins. -/
  | hole

/-- The text of a string up to its end or an interpolated expression.  The
number bounds the characters that are read, and the text read before comes in
reverse. -/
def chunk? : Nat → List Char → List Char → Option (String × Ending × List Char)
  | 0, _, _ => none
  | _ + 1, _, [] => none
  | _ + 1, before, '"' :: rest =>
      some (String.ofList before.reverse, .quote, rest)
  | _ + 1, before, '\\' :: '(' :: rest =>
      some (String.ofList before.reverse, .hole, rest)
  | fuel + 1, before, '\\' :: rest =>
      (escape? rest).bind fun (c, rest) => chunk? fuel (c :: before) rest
  | fuel + 1, before, c :: rest => chunk? fuel (c :: before) rest

/-- All tokens of a text.  The number bounds the characters that are read; the
list has, for every interpolated expression that is open, the number of its
open parentheses, and `inText` says whether the text of a string comes next. -/
def scan : Nat → Bool → List Nat → List Char → Option (List Token)
  | 0, _, _, _ => none
  | fuel + 1, true, holes, cs => do
      let (text, ending, rest) ← chunk? (cs.length + 1) [] cs
      match ending with
      | .quote =>
          let tokens ← scan fuel false holes rest
          some (chunk text :: closeText :: tokens)
      | .hole =>
          let tokens ← scan fuel false (0 :: holes) rest
          some (chunk text :: openHole :: tokens)
  | _ + 1, false, [], [] => some []
  | _ + 1, false, _ :: _, [] => none
  | fuel + 1, false, holes, c :: rest =>
      let emit (token : Token) (rest : List Char) : Option (List Token) :=
        (scan fuel false holes rest).map (token :: ·)
      if Text.isBlank c then scan fuel false holes rest
      else if c = '#' then
        scan fuel false holes (skipComment 0 rest)
      else if c = '"' then (scan fuel true holes rest).map (openText :: ·)
      else if c.isDigit then do
        let (digits, rest) ← number? (c :: rest)
        emit (.number (String.ofList digits)) rest
      else if beginsName c then do
        let (token, rest) ← word? (c :: rest)
        emit token rest
      else if c = '$' || c = '@' then do
        let (token, rest) ← named? (c :: rest)
        emit token rest
      else
        match c, name? rest with
        | '.', some (name, rest) => emit (.field name) rest
        | _, _ => do
            let (text, rest) ← sign? (c :: rest)
            match text, holes with
            | ")", 0 :: outer =>
                (scan fuel true outer rest).map (closeHole :: ·)
            | ")", (depth + 1) :: outer =>
                (scan fuel false (depth :: outer) rest).map (sign text :: ·)
            | "(", depth :: outer =>
                (scan fuel false ((depth + 1) :: outer) rest).map
                  (sign text :: ·)
            | _, _ => emit (.sign text) rest

/-- The tokens of a program, if it is made of tokens. -/
def ofText? (text : String) : Option (List Token) :=
  scan (text.length + 1) false [] text.toList

end Token

end Longhand.Query
