/-!
# Pointing into a document

A pointer lists the keys and indices on the way from the root to a value.  Its
text puts a slash in front of each of them, and escapes slashes and tildes, so
the text of a pointer determines the pointer.
-/

namespace Longhand

/-- Keys and indices from the root downwards. -/
abbrev Pointer := List String

namespace Pointer

/-- How a character of a key is written. -/
def escapeChar (c : Char) : List Char :=
  if c = '~' then ['~', '0']
  else if c = '/' then ['~', '1']
  else [c]

/-- A key behind its slash. -/
def tokenText (token : String) : String :=
  "/" ++ String.ofList (token.toList.flatMap escapeChar)

/-- The text of a pointer; the root has the empty text. -/
def text (pointer : Pointer) : String :=
  String.join (pointer.map tokenText)

/-- The text shown to a reader, where the root is a slash. -/
def display (text : String) : String :=
  if text.isEmpty then "/" else text

end Pointer

end Longhand
