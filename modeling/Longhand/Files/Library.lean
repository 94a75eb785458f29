import Longhand.Files.Tree
import Longhand.Fragment
import Longhand.Json.Reader

/-!
# Fragments in files

A reference names a file relative to a base directory.  Its identity is the
normalized path, so that different spellings of one path count as one fragment.
Every reference that can come up is a string of the document or of some file,
which makes the library finite.
-/

namespace Longhand

mutual
/-- All strings among the leaves of a value. -/
def Value.strings : Value → List String
  | .string text => [text]
  | .array items => stringsOfItems items
  | .object members => stringsOfMembers members
  | _ => []

/-- All strings among the leaves of items. -/
def Value.stringsOfItems : List Value → List String
  | [] => []
  | item :: rest => item.strings ++ Value.stringsOfItems rest

/-- All strings among the leaves of the values of members. -/
def Value.stringsOfMembers : List (String × Value) → List String
  | [] => []
  | (_, value) :: rest => value.strings ++ Value.stringsOfMembers rest
end

namespace Files

/-- The identity of a reference under a base directory: the text of the normalized path.
The base directory is a text as well.  One whose name is no Unicode text, of which an
identity would hold an approximation, is left out. -/
def identify (base reference : String) : String :=
  ((Path.ofText base).join (Path.ofText reference)).normalize.text

namespace Tree

/-- The document in a file of a library. -/
def loadFragment (tree : Tree) (identity : String) :
    Except LoadFailure Value :=
  match tree.read identity with
  | .ok bytes => (Json.parseBytes bytes).mapError (.malformed identity)
  | .error .notFound => .error (.notFound identity)
  | .error fault => .error (.unreadable identity fault)

/-- All strings in the files of a tree that hold a document. -/
def strings (tree : Tree) : List String :=
  tree.nodes.flatMap fun (_, node) =>
    match node with
    | .file (.ok bytes) =>
        match Json.parseBytes bytes with
        | .ok value => value.strings
        | .error _ => []
    | _ => []

/-- The fragments under a base directory that the given references, or
references in files, can name. -/
def library (tree : Tree) (base : String) (references : List String) :
    Library where
  identify := identify base
  isPrompt := false
  stored :=
    (references ++ tree.strings).foldl
      (fun stored reference =>
        let identity := identify base reference
        if Members.contains stored identity then stored
        else
          match tree.loadFragment identity with
          | .error (.notFound _) => stored
          | result => stored ++ [(identity, result)])
      []

end Tree

end Files

end Longhand
