import Longhand.Text.Quoted

/-!
# What is wrong with a text, and where

A fault names the problem, the position in the text at which it was noticed and
the place in the document that was being read.
-/

namespace Longhand.Json

/-- One step from a value to a part of it. -/
inductive Segment where
  | key (name : String)
  | index (n : Nat)
  /-- The member of an object whose key could not be read. -/
  | unknown
  deriving DecidableEq, Repr

/-- A line, counted from one, and the bytes read in that line. -/
structure Position where
  line : Nat
  column : Nat
  deriving DecidableEq, Inhabited, Repr

/-- The kind of value that stands where another one is wanted. -/
inductive Found where
  | null
  | bool (value : Bool)
  | integer (value : Int)
  | double (text : String)
  | string (text : String)
  | sequence
  | map
  deriving DecidableEq, Repr

/-- A reason to refuse a text. -/
inductive Problem where
  | endInValue
  | endInString
  | endInList
  | endInObject
  | expectedValue
  | expectedIdentifier
  | invalidNumber
  | numberOutOfRange
  | expectedColon
  | expectedCommaInList
  | expectedCommaInObject
  | trailingComma
  | keyNotString
  | invalidEscape
  | endOfHexEscape
  | loneSurrogate
  | controlCharacter
  | invalidUnicode
  | recursionLimit
  | trailingCharacters
  | invalidType (found : Found) (wanted : String)
  | invalidValue (found : Found) (wanted : String)
  | unknownField (name : String) (known : List String)
  | duplicateField (name : String)
  | unknownVariant (name : String) (known : List String)
  deriving DecidableEq, Repr

/-- A problem, the position in the text and the place in the document. -/
structure Fault where
  path : List Segment
  problem : Problem
  position : Position
  deriving DecidableEq, Repr

/-- Text that ends one level further up: the place is seen from the value that
holds the faulty part. -/
def Fault.within (segment : Segment) (fault : Fault) : Fault :=
  { fault with path := segment :: fault.path }

/-! ## Wording -/

/-- Segments behind the first: keys after a point, indices in brackets. -/
def laterSegments : List Segment → String
  | [] => ""
  | .key name :: rest => "." ++ name ++ laterSegments rest
  | .index n :: rest => "[" ++ toString n ++ "]" ++ laterSegments rest
  | .unknown :: rest => ".?" ++ laterSegments rest

/-- A place in a document; a point alone is the whole document. -/
def pathText : List Segment → String
  | [] => "."
  | .key name :: rest => name ++ laterSegments rest
  | .index n :: rest => "[" ++ toString n ++ "]" ++ laterSegments rest
  | .unknown :: rest => "?" ++ laterSegments rest

/-- Names between backquotes: two joined by "or", more of them listed after
"one of". -/
def oneOf : List String → String
  | [] => "nothing"
  | [only] => "`" ++ only ++ "`"
  | [first, second] => "`" ++ first ++ "` or `" ++ second ++ "`"
  | names =>
      "one of " ++ String.intercalate ", " (names.map fun n => "`" ++ n ++ "`")

/-- The wording of the kind of a value. -/
def Found.text : Found → String
  | null => "null"
  | bool value => "boolean `" ++ (if value then "true" else "false") ++ "`"
  | integer value => "integer `" ++ toString value ++ "`"
  | double text => "floating point `" ++ text ++ "`"
  | string text => "string " ++ Text.quoted text
  | sequence => "sequence"
  | map => "map"

/-- The wording of a problem. -/
def Problem.text : Problem → String
  | endInValue => "EOF while parsing a value"
  | endInString => "EOF while parsing a string"
  | endInList => "EOF while parsing a list"
  | endInObject => "EOF while parsing an object"
  | expectedValue => "expected value"
  | expectedIdentifier => "expected ident"
  | invalidNumber => "invalid number"
  | numberOutOfRange => "number out of range"
  | expectedColon => "expected `:`"
  | expectedCommaInList => "expected `,` or `]`"
  | expectedCommaInObject => "expected `,` or `\x7d`"
  | trailingComma => "trailing comma"
  | keyNotString => "key must be a string"
  | invalidEscape => "invalid escape"
  | endOfHexEscape => "unexpected end of hex escape"
  | loneSurrogate => "lone leading surrogate in hex escape"
  | controlCharacter =>
      "control character (\\u0000-\\u001F) found while parsing a string"
  | invalidUnicode => "invalid unicode code point"
  | recursionLimit => "recursion limit exceeded"
  | trailingCharacters => "trailing characters"
  | invalidType found wanted =>
      "invalid type: " ++ found.text ++ ", expected " ++ wanted
  | invalidValue found wanted =>
      "invalid value: " ++ found.text ++ ", expected " ++ wanted
  | unknownField name known =>
      "unknown field `" ++ name ++ "`, expected " ++ oneOf known
  | duplicateField name => "duplicate field `" ++ name ++ "`"
  | unknownVariant name known =>
      "unknown variant `" ++ name ++ "`, expected " ++ oneOf known

/-- The problem and its position. -/
def Fault.reason (fault : Fault) : String :=
  fault.problem.text ++ " at line " ++ toString fault.position.line ++
    " column " ++ toString fault.position.column

/-- The whole wording of a fault: the place first, then the reason. -/
def Fault.text (fault : Fault) : String :=
  "at JSON path " ++ pathText fault.path ++ " → " ++ fault.reason

end Longhand.Json
