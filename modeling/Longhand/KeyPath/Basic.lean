import Longhand.Text.Split

/-!
# Keys that spell a path

A key such as `a.b.c` stands for three nested keys.  A separator that belongs to
a key is written behind a backslash, and so is a backslash in front of a
separator or of another backslash; any other backslash stands for itself.
-/

namespace Longhand

/-- The keys on the way from an object to a value inside it. -/
abbrev KeyPath := List String

namespace KeyPath

/-- The separator of paths unless settings choose another one. -/
def defaultSeparator : Char := '.'

/-- Split characters at the separators that are not escaped, and unescape the
parts. -/
def splitChars (separator : Char) : List Char → List (List Char)
  | [] => [[]]
  | [c] => if c ≠ '\\' ∧ c = separator then [[], []] else [[c]]
  | c :: next :: rest =>
      if c = '\\' then
        if next = separator ∨ next = '\\' then
          Text.consFirst next (splitChars separator rest)
        else Text.consFirst c (splitChars separator (next :: rest))
      else if c = separator then [] :: splitChars separator (next :: rest)
      else Text.consFirst c (splitChars separator (next :: rest))

/-- The path that a key spells.  It has at least one segment. -/
def split (separator : Char) (key : String) : KeyPath :=
  (splitChars separator key.toList).map String.ofList

theorem splitChars_ne_nil (separator : Char) (chars : List Char) :
    splitChars separator chars ≠ [] := by
  fun_cases splitChars separator chars <;> simp [Text.consFirst_ne_nil]

/-- A key spells at least one segment. -/
theorem split_ne_nil (separator : Char) (key : String) :
    split separator key ≠ [] := by
  simp [split, splitChars_ne_nil]

/-- The characters that spell a segment: separators and backslashes stand behind
a backslash. -/
def escapeChars (separator : Char) (segment : List Char) : List Char :=
  segment.flatMap fun c =>
    if c = separator ∨ c = '\\' then ['\\', c] else [c]

/-- A key that spells a path. -/
def spell (separator : Char) (path : KeyPath) : String :=
  String.intercalate (String.singleton separator)
    (path.map fun segment =>
      String.ofList (escapeChars separator segment.toList))

/-- The segments with separators between them and nothing escaped. -/
def plainText (separator : Char) (path : KeyPath) : String :=
  String.intercalate (String.singleton separator) path

end KeyPath

end Longhand
