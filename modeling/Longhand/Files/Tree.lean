import Longhand.Files.Fault
import Longhand.Files.Path

/-!
# A tree of files

The files and directories that a run can see, and the directory it works in.
Paths are followed step by step and every step needs a directory to start from,
so the faults are those that a system reports.
-/

namespace Longhand.Files

/-- What is found at a place.  A file may refuse to be read. -/
inductive Node where
  | directory
  | file (content : Except Fault (List UInt8))

/-- Files and directories by place, and the directory that relative paths start
from.  The root and the working directory always exist. -/
structure Tree where
  working : Path.Place
  nodes : List (Path.Place × Node)

namespace Tree

/-- The longest name that an entry of a directory can have, in bytes. -/
def nameLimit : Nat := 255

/-- The longest text that a path can have, in bytes. -/
def pathLimit : Nat := 4095

/-- What is found at a place. -/
def node? (tree : Tree) (place : Path.Place) : Option Node :=
  if place.isSuffixOf tree.working then some .directory
  else tree.nodes.lookup place

/-- The entries of a directory. -/
def entries (tree : Tree) (place : Path.Place) : List String :=
  tree.nodes.filterMap fun (other, _) =>
    match other with
    | name :: rest => if rest = place then some name else none
    | [] => none

/-- Whether a place is a directory. -/
def isDirectory (tree : Tree) (place : Path.Place) : Bool :=
  match tree.node? place with
  | some .directory => true
  | _ => false

/-- Take a step, which needs a directory. -/
def enter (tree : Tree) (place : Path.Place) (step : Step) :
    Except Fault Path.Place :=
  match tree.node? place with
  | none => .error .notFound
  | some (.file _) => .error .notDirectory
  | some .directory =>
      match step with
      | .name n =>
          if nameLimit < n.utf8ByteSize then .error .nameTooLong
          else .ok (place.move step)
      | _ => .ok (place.move step)

/-- The steps that a text asks for.  A slash at the end asks for a directory. -/
def stepsOf (text : String) : List Step :=
  (Path.ofText text).steps ++
    if text.toList.getLast? = some '/' then [.here] else []

/-- The place where a path starts. -/
def startOf (tree : Tree) (text : String) : Path.Place :=
  if (Path.ofText text).absolute then [] else tree.working

/-- Whether a text can be handed to the system as a path. -/
def checkText (text : String) : Except Fault Unit :=
  if text.toList.contains '\x00' then .error .nulInName
  else if pathLimit < text.utf8ByteSize then .error .nameTooLong
  else .ok ()

/-- The place that a path text leads to; nothing may be there. -/
def locate (tree : Tree) (text : String) : Except Fault Path.Place := do
  checkText text
  if text = "" then .error .notFound
  else (stepsOf text).foldlM tree.enter (tree.startOf text)

/-- The content of a file. -/
def read (tree : Tree) (text : String) : Except Fault (List UInt8) := do
  let place ← tree.locate text
  match tree.node? place with
  | none => .error .notFound
  | some .directory => .error .isDirectory
  | some (.file content) => content

/-- The content of a file that holds a text. -/
def readText (tree : Tree) (text : String) : Except Fault String := do
  let bytes ← tree.read text
  match String.fromUTF8? ⟨bytes.toArray⟩ with
  | some content => .ok content
  | none => .error .notText

/-- Put something at a place, over what is there. -/
def put (tree : Tree) (place : Path.Place) (node : Node) : Tree :=
  { tree with
    nodes := tree.nodes.filter (fun other => other.1 ≠ place) ++
      [(place, node)] }

/-- Make the directories that steps lead through.  A file in the way refuses,
and a file at the end exists already. -/
def makeAlong (tree : Tree) (place : Path.Place) :
    List Step → Except Fault Tree
  | [] => .ok tree
  | step :: rest => do
      let next ← tree.enter place step
      match tree.node? next with
      | some .directory => tree.makeAlong next rest
      | some (.file _) =>
          if rest.isEmpty then .error .alreadyExists
          else .error .notDirectory
      | none => (tree.put next .directory).makeAlong next rest

/-- Make a directory and all directories on the way to it. -/
def makeDirectories (tree : Tree) (text : String) : Except Fault Tree := do
  checkText text
  tree.makeAlong (tree.startOf text) (Path.ofText text).steps

/-- The fault of writing to a text that ends with a slash, which names a
directory whatever there is: the way to it comes first. -/
def slashFault (tree : Tree) (text : String) : Fault :=
  match (Path.ofText text).steps.dropLast.foldlM tree.enter
      (tree.startOf text) with
  | .error fault => fault
  | .ok place =>
      match tree.enter place .here with
      | .error fault => fault
      | .ok _ => .isDirectory

/-- Write a file in a directory that exists. -/
def write (tree : Tree) (text : String) (content : List UInt8) :
    Except Fault Tree := do
  checkText text
  if text.toList.getLast? = some '/' then .error (tree.slashFault text)
  else
    let place ← tree.locate text
    match tree.node? place with
    | some .directory => .error .isDirectory
    | _ => .ok (tree.put place (.file (.ok content)))

/-- Put a file below the working directory and make the directories on the way;
nothing changes if that is refused. -/
def withFile (tree : Tree) (text : String) (content : List UInt8) : Tree :=
  let made :=
    match Path.parentText? text with
    | some parent => tree.makeDirectories parent
    | none => .ok tree
  match made with
  | .ok made =>
      match made.write text content with
      | .ok written => written
      | .error _ => made
  | .error _ => tree

/-- Put a directory below the working directory, with the directories on the
way. -/
def withDirectory (tree : Tree) (text : String) : Tree :=
  match tree.makeDirectories text with
  | .ok made => made
  | .error _ => tree

end Tree

end Longhand.Files
