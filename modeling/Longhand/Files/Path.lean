import Longhand.Text.Split

/-!
# Paths

A path is a list of steps, taken from the root when it is absolute and from some
directory otherwise.  Normalizing a path drops the steps that stay and lets a
step up cancel the name in front of it, without looking at any directory.

Names are texts.  A system may also have names that are no Unicode text, and paths
with such names are left out.
-/

namespace Longhand.Files

/-- One step of a path. -/
inductive Step where
  /-- Stay in the directory. -/
  | here
  /-- Go to the parent directory. -/
  | up
  /-- Go to an entry of the directory. -/
  | name (name : String)
  deriving DecidableEq, Repr

/-- The step that a part of a path text spells; empty parts spell none. -/
def Step.ofText? (part : String) : Option Step :=
  if part = "" then none
  else if part = "." then some .here
  else if part = ".." then some .up
  else some (.name part)

/-- The spelling of a step. -/
def Step.text : Step → String
  | here => "."
  | up => ".."
  | name n => n

/-- The steps of a path and where they start. -/
structure Path where
  absolute : Bool
  steps : List Step
  deriving DecidableEq, Repr

namespace Path

/-- The path that a text spells. -/
def ofText (text : String) : Path where
  absolute := text.toList.head? = some '/'
  steps := (Text.splitOn '/' text).filterMap Step.ofText?

/-- The spelling of a path. -/
def text (path : Path) : String :=
  (if path.absolute then "/" else "") ++
    String.intercalate "/" (path.steps.map Step.text)

/-- Read a path from the end of another one; an absolute path starts anew. -/
def join (base path : Path) : Path :=
  if path.absolute then path
  else { base with steps := base.steps ++ path.steps }

/-- Add a step to normalized steps, the last one first. -/
def push (steps : List Step) : Step → List Step
  | .here => steps
  | .name n => .name n :: steps
  | .up =>
      match steps with
      | .name _ :: rest => rest
      | _ => .up :: steps

/-- Drop what cancels out. -/
def normalize (path : Path) : Path :=
  { path with steps := (path.steps.foldl push []).reverse }

/-! ## The text of a parent -/

/-- The part of a path text that no step follows: the root, or a step that
stays, at the beginning. -/
def leadOf : List Char → List Char × List Char
  | '/' :: rest => (['/'], rest)
  | ['.'] => (['.'], [])
  | '.' :: '/' :: rest => (['.'], '/' :: rest)
  | chars => ([], chars)

/-- Drop the parts at the end that lead nowhere: empty ones, and steps that
stay. -/
def trimParts (parts : List String) : List String :=
  (parts.reverse.dropWhile fun part => part = "" || part = ".").reverse

/-- The text of a path without its last step, as it is written.  There is none
for the root and for the empty text. -/
def parentText? (text : String) : Option String :=
  let (lead, body) := leadOf text.toList
  match trimParts (Text.splitOn '/' (String.ofList body)) with
  | [] => if lead = ['.'] then some "" else none
  | part :: rest =>
      some (String.ofList lead ++
        String.intercalate "/" (trimParts (part :: rest).dropLast))

/-! ## Places -/

/-- The names from the root to a file or directory, the last one first. -/
abbrev Place := List String

/-- Where a step leads; the root is its own parent. -/
def Place.move (place : Place) : Step → Place
  | .here => place
  | .up => place.tail
  | .name n => n :: place

/-- Where a path leads from a directory. -/
def lead (path : Path) (start : Place) : Place :=
  path.steps.foldl Place.move (if path.absolute then [] else start)

end Path

end Longhand.Files
