/-!
# Outlines

An outline is a text, or a group of outlines between an opening and a closing
text.  The entries of a group stand on lines of their own, four spaces further
in, each with a comma behind it; an empty group stays on one line.
-/

namespace Longhand.Text

/-- A text, or a group whose entries may have labels. -/
inductive Outline where
  | line (text : String)
  | group (opening closing : String) (entries : List (String × Outline))

namespace Outline

/-- A group of entries without labels. -/
def list (opening closing : String) (entries : List Outline) : Outline :=
  .group opening closing (entries.map fun entry => ("", entry))

/-- A new line at a level of indentation. -/
def newline (level : Nat) : String :=
  "\n" ++ String.ofList (List.replicate (4 * level) ' ')

mutual
/-- The text of an outline at a level of indentation. -/
def textAt (level : Nat) : Outline → String
  | line text => text
  | group opening closing [] => opening ++ closing
  | group opening closing (entry :: rest) =>
      opening ++ entriesText (level + 1) (entry :: rest) ++ newline level ++
        closing

/-- The texts of entries, each on a line of its own. -/
def entriesText (level : Nat) : List (String × Outline) → String
  | [] => ""
  | (label, entry) :: rest =>
      newline level ++ label ++ entry.textAt level ++ "," ++
        entriesText level rest
end

/-- The text of an outline. -/
def text (outline : Outline) : String :=
  outline.textAt 0

end Outline

end Longhand.Text
