import Longhand.Text.Split

/-!
# Occurrences of one text in another

Positions count characters.  Looking for occurrences finds overlapping ones;
cutting a text at a separator continues behind each separator found.
-/

namespace Longhand.Text

/-- The positions, from a first one on, at which a part stands in a list. -/
def positionsFrom {α : Type} (matchesHere : List α → Bool) :
    Nat → List α → List Nat
  | _, [] => []
  | position, item :: rest =>
      if matchesHere (item :: rest) then
        position :: positionsFrom matchesHere (position + 1) rest
      else positionsFrom matchesHere (position + 1) rest

/-- The positions at which a part stands in a list; occurrences may overlap. -/
def positions {α : Type} (same : α → α → Bool) (part whole : List α) :
    List Nat :=
  positionsFrom (startsWith part) 0 whole
where
  /-- Whether a list begins with a part. -/
  startsWith : List α → List α → Bool
    | [], _ => true
    | _ :: _, [] => false
    | a :: part, b :: whole => same a b && startsWith part whole

/-- Cut characters at a separator that is not empty.  The first number counts
the characters of a separator that are still to be passed over. -/
def cutAt (separator : List Char) : Nat → List Char → List (List Char)
  | _, [] => [[]]
  | passing + 1, _ :: rest => cutAt separator passing rest
  | 0, c :: rest =>
      if separator.isPrefixOf (c :: rest) then
        [] :: cutAt separator (separator.length - 1) rest
      else consFirst c (cutAt separator 0 rest)

/-- The parts of a text between occurrences of a separator: the single
characters when the separator is empty, and none when the text is. -/
def parts (separator text : String) : List String :=
  if text.isEmpty then []
  else if separator.isEmpty then
    text.toList.map fun c => String.ofList [c]
  else (cutAt separator.toList 0 text.toList).map String.ofList

/-- Whether a text occurs in another. -/
def occursIn (part whole : String) : Bool :=
  part.isEmpty ||
    !(positions (· == ·) part.toList whole.toList).isEmpty

end Longhand.Text
