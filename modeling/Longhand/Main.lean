import Longhand.CommandLine.Run

/-!
# The program

A run is a function of its arguments and of a tree of files.  The program shows
it the part of the file system that it asks for: whenever a run ends because it
could not read a file, the file is looked up and the run is repeated.  What the
run changed in the tree is written out at the end.
-/

namespace Longhand.CommandLine

open Files

/-- The text of a place. -/
def textOf (place : Path.Place) : String :=
  "/" ++ String.intercalate "/" place.reverse

/-- What the system has at a place. -/
def look (place : Path.Place) : IO (Option Node) := do
  try
    let here ← IO.currentDir
    if ← (here / textOf place).isDir then return some .directory
    let bytes ← IO.FS.readBinFile (textOf place)
    return some (.file (.ok bytes.toList))
  catch
    | .noFileOrDirectory .. => return none
    | .inappropriateType .. => return none
    | fault => return some (.file (.error (.other (toString fault))))

/-- Look up what a path leads through and where it ends. -/
def reveal (tree : Tree) (path : String) : IO Tree := do
  let mut tree := tree
  let mut place := tree.startOf path
  for step in Tree.stepsOf path do
    match tree.enter place step with
    | .error _ => return tree
    | .ok next =>
        if !tree.isDirectory next then
          match ← look next with
          | none => return tree
          | some node => tree := tree.put next node
        place := next
  return tree

/-- Look up the names below a directory, as many levels down as the number
says.  Files are listed and read only when a run wants them. -/
def list : Nat → Tree → Path.Place → IO Tree
  | 0, tree, _ => return tree
  | levels + 1, tree, place => do
      let mut tree := tree
      let here ← IO.currentDir
      for entry in ← (here / textOf place).readDir do
        let next := entry.fileName :: place
        if ← (here / textOf next).isDir then
          tree ← list levels (tree.put next .directory) next
        else if (tree.node? next).isNone then
          tree := tree.put next (.file (.error .notFound))
      return tree

/-- How many levels a pattern can reach that names no number of them. -/
def anyLevels : Nat := 32

/-- Look up what a pattern may select. -/
def revealPattern (tree : Tree) (pattern : String) : IO Tree := do
  let parts := Text.splitOn '/' pattern
  let plain := parts.takeWhile fun part => !Glob.hasWildcard part
  let start := String.intercalate "/" plain
  let start := if start.isEmpty && pattern.startsWith "/" then "/" else start
  let tree ← if start.isEmpty then pure tree else reveal tree start
  let levels := if parts.contains "**" then anyLevels else parts.length
  match tree.locate (if start.isEmpty then "." else start) with
  | .error _ => return tree
  | .ok place => if tree.isDirectory place then list levels tree place
                 else return tree

/-- The file that a run could not read. -/
def unread? (tree : Tree) (arguments : List String) : Option String :=
  match readArguments tree arguments with
  | .error (.invalidValue _ _ (.unreadable path _)) => some path
  | .error _ => none
  | .ok request =>
      match perform tree request with
      | .error (trouble, _) => trouble.missing?
      | .ok _ => none

/-- Show a run all files that it wants to read. -/
partial def explore (tree : Tree) (seen arguments : List String) : IO Tree := do
  match unread? tree arguments with
  | none => return tree
  | some path =>
      if seen.contains path then return tree
      else explore (← reveal tree path) (path :: seen) arguments

/-- The part of the file system that a run can see. -/
def explored (arguments : List String) : IO Tree := do
  let here ← IO.currentDir
  let working := (Path.ofText here.toString).lead []
  let tree : Tree := ⟨working, []⟩
  let tree ← explore tree [] arguments
  match readArguments tree arguments with
  | .error _ => return tree
  | .ok request =>
      let mut tree := tree
      for pattern in request.definitions do
        if Glob.hasWildcard pattern then tree ← revealPattern tree pattern
      if let some path := request.out then tree ← reveal tree path
      explore tree [] arguments

/-- Write out what changed from one tree to another. -/
def save (before after : Tree) : IO Unit := do
  for (place, node) in after.nodes do
    match node, before.nodes.lookup place with
    | .directory, none => IO.FS.createDir (textOf place)
    | .file (.ok new), some (.file (.ok old)) =>
        if new ≠ old then
          IO.FS.writeBinFile (textOf place) ⟨new.toArray⟩
    | .file (.ok new), _ => IO.FS.writeBinFile (textOf place) ⟨new.toArray⟩
    | _, _ => pure ()

end Longhand.CommandLine

open Longhand.CommandLine in
/-- Run the program on its arguments and the files of the system. -/
def main (arguments : List String) : IO UInt32 := do
  let tree ← explored arguments
  match run tree arguments with
  | .error refusal =>
      if refusal = .helpWanted || refusal = .versionWanted then
        IO.println refusal.text
        return 0
      else
        IO.eprintln refusal.text
        return 2
  | .ok outcome =>
      IO.print outcome.printed
      IO.eprint outcome.complained
      save tree outcome.tree
      return outcome.exitCode.toUInt32
