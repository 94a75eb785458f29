import Longhand.CommandLine.Arguments
import Longhand.Compile
import Longhand.Files.Glob
import Longhand.Files.Library
import Longhand.Settings.Reader

/-!
# Running the command

A run reads its settings, definitions and document from a tree of files,
compiles the document and puts the result out.  It ends with what it printed,
its exit code and the tree as it is afterwards.
-/

namespace Longhand.CommandLine

/-- What a file is read for. -/
inductive Purpose where
  | config
  | definitions
  | document
  deriving DecidableEq, Repr

/-- Why a run does not succeed. -/
inductive Trouble where
  | unreadable (purpose : Purpose) (path : String) (fault : Files.Fault)
  | malformed (purpose : Purpose) (path : String) (fault : Json.Fault)
  | badPattern (refusal : Files.Glob.Refusal)
  | noMatch (pattern : String)
  | clashingDefinitions (path : String) (failure : Failure)
  | notDefinitions (path : String)
  | generatorRefused (failure : Failure)
  | pluginsRefused (failed : CompileFailure)
  | notCompiled (file : String) (failed : CompileFailure)
  | notCreated (directory : String) (fault : Files.Fault)
  | notWritten (path : String) (fault : Files.Fault)

/-- The report of a failed compilation. -/
def reportLines (file : String) (failed : CompileFailure) : List String :=
  let names := Members.keys failed.definitions
  ["[" ++ failed.failure.tag ++ "] " ++ file ++ " (" ++ failed.stage.name ++
      " stage)",
    "  " ++ failed.failure.text] ++
  (if failed.namespaces.isEmpty then []
    else ["  namespaces: " ++ String.intercalate ", " failed.namespaces]) ++
  (if names.isEmpty then []
    else ["  definitions in scope: " ++ String.intercalate ", " names])

/-- What is printed for a trouble: the lines of a report, then the error. -/
def Trouble.lines : Trouble → List String
  | unreadable .config path fault =>
      ["error: failed to read config " ++ path ++ ": " ++ fault.text ++ ": " ++
        fault.text]
  | malformed .config path fault =>
      ["error: invalid config " ++ path ++ ": " ++ fault.text ++ ": " ++
        fault.text]
  | unreadable .definitions path fault =>
      ["error: failed to read definition file " ++ path ++ ": " ++ fault.text]
  | malformed .definitions path fault =>
      ["error: failed to parse definition file " ++ path ++ ": " ++
        fault.text]
  | unreadable .document path fault =>
      ["error: failed to read " ++ path ++ ": " ++ fault.text]
  | malformed .document path fault =>
      ["error: failed to parse " ++ path ++ ": " ++ fault.text]
  | badPattern refusal => ["error: " ++ refusal.text]
  | noMatch pattern => ["error: glob pattern matched no files: " ++ pattern]
  | clashingDefinitions path failure =>
      ["error: failed to expand definition file " ++ path ++ ": " ++
        failure.text]
  | notDefinitions path =>
      ["error: definition file " ++ path ++
        " must contain an object of named definitions"]
  | generatorRefused failure =>
      ["error: failed to configure the output generator: " ++ failure.text]
  | pluginsRefused failed => ["error: " ++ failed.text]
  | notCompiled file failed =>
      reportLines file failed ++
        ["error: compilation of " ++ file ++ " failed"]
  | notCreated directory fault =>
      ["error: failed to create " ++ directory ++ ": " ++ fault.text]
  | notWritten path fault =>
      ["error: failed to write " ++ path ++ ": " ++ fault.text]

/-- The path of the file that was missing, when that is the trouble. -/
def Trouble.missing? : Trouble → Option String
  | unreadable _ path _ => some path
  | notCompiled _ failed =>
      match failed.failure with
      | .invalidReference _ (.unloadable (.notFound path)) => some path
      | .invalidReference _ (.unloadable (.unreadable path _)) => some path
      | _ => none
  | _ => none

/-- How a run ends. -/
structure Outcome where
  exitCode : Nat
  printed : String
  complained : String
  tree : Files.Tree

/-! ## Reading -/

/-- Read a text for a purpose. -/
def readFor (tree : Files.Tree) (purpose : Purpose) (path : String) :
    Except Trouble String :=
  (tree.readText path).mapError (.unreadable purpose path)

/-- The settings of a run. -/
def readSettings (tree : Files.Tree) : Option String → Except Trouble Settings
  | none => .ok {}
  | some path => do
      let source ← readFor tree .config path
      (Settings.parse source).mapError (.malformed .config path)

/-- The files that a path or a pattern stands for. -/
def filesOf (tree : Files.Tree) (pattern : String) :
    Except Trouble (List String) :=
  if Files.Glob.hasWildcard pattern then
    match Files.Glob.paths tree pattern with
    | .error refusal => .error (.badPattern refusal)
    | .ok [] => .error (.noMatch pattern)
    | .ok paths => .ok paths
  else .ok [pattern]

/-- The definitions in a file, with keys that spell paths expanded. -/
def readDefinitions (tree : Files.Tree) (settings : Settings) (path : String) :
    Except Trouble (Members Value) := do
  let source ← readFor tree .definitions path
  let value ← (Json.parse source).mapError (.malformed .definitions path)
  let expanded ←
    (KeyPath.expand settings.pathSeparator settings.pathConflicts
      value).mapError fun clash =>
        .clashingDefinitions path (clash.toFailure settings.pathSeparator)
  match expanded with
  | .object definitions => .ok definitions
  | _ => .error (.notDefinitions path)

/-- Add definitions under names that are new. -/
def unite (known more : Members Value) : Members Value :=
  more.foldl (fun known entry => Members.setNew known entry.1 entry.2) known

/-- The definitions of all files; the first file that has a name wins. -/
def readAllDefinitions (tree : Files.Tree) (settings : Settings)
    (patterns : List String) : Except Trouble (Members Value) := do
  let files ← patterns.mapM (filesOf tree)
  files.flatten.foldlM
    (fun known path => do
      let more ← readDefinitions tree settings path
      .ok (unite known more))
    []

/-- The directory that references in a document are relative to. -/
def baseOf (file : String) : String :=
  match Files.Path.parentText? file with
  | some parent => if parent.isEmpty then "." else parent
  | none => "."

/-- Write the overrides into a document, one after another. -/
def override (overrides : List (String × Value)) (separator : Char)
    (document : Value) : Value :=
  overrides.foldl
    (fun document (path, value) => document.setPath separator path value)
    document

/-! ## Running -/

/-- The text that a request asks for. -/
def compileText (tree : Files.Tree) (request : Request) :
    Except Trouble String := do
  let settings ← readSettings tree request.config
  let definitions ← readAllDefinitions tree settings request.definitions
  let source ← readFor tree .document request.file
  let document ← (Json.parse source).mapError (.malformed .document request.file)
  let document := override request.overrides settings.pathSeparator document
  let context : Context :=
    { namespaces := request.namespaces
      checks := request.checks.map .query
      library := tree.library (baseOf request.file) document.strings
      settings }
  let context := context.withDefinitions definitions
  let _ ← (context.configurePlugins []).result.mapError .pluginsRefused
  let generator ←
    (context.bundle.configureGenerator
      (.json request.isCompact)).result.mapError .generatorRefused
  let compiled ←
    (context.compile document).result.mapError (.notCompiled request.file)
  .ok (generator.render compiled)

/-- Make the directories on the way to a file. -/
def makeParent (tree : Files.Tree) (path : String) :
    Except Trouble Files.Tree :=
  match Files.Path.parentText? path with
  | none => .ok tree
  | some parent =>
      if parent.isEmpty then .ok tree
      else (tree.makeDirectories parent).mapError (.notCreated parent)

/-- Write a text to a file and make the directories on the way. -/
def writeOut (tree : Files.Tree) (path content : String) :
    Except Trouble Files.Tree := do
  let made ← makeParent tree path
  (made.write path content.toByteArray.data.toList).mapError (.notWritten path)

/-- The tree as a failed writing leaves it: with the directories made. -/
def treeAfter (tree : Files.Tree) (path : String) : Trouble → Files.Tree
  | .notWritten .. =>
      match Files.Path.parentText? path with
      | some parent => tree.withDirectory parent
      | none => tree
  | _ => tree

/-- Do what a request asks for. -/
def perform (tree : Files.Tree) (request : Request) :
    Except (Trouble × Files.Tree) Outcome :=
  if request.noOp then
    .ok ⟨0, "", request.outline.text ++ "\n", tree⟩
  else
    match compileText tree request with
    | .error trouble => .error (trouble, tree)
    | .ok content =>
        match request.out with
        | none => .ok ⟨0, content ++ "\n", "", tree⟩
        | some path =>
            match writeOut tree path content with
            | .ok written => .ok ⟨0, "", "", written⟩
            | .error trouble => .error (trouble, treeAfter tree path trouble)

/-- The outcome of a run that met with trouble. -/
def Trouble.outcome (trouble : Trouble) (tree : Files.Tree) : Outcome where
  exitCode := 1
  printed := ""
  complained := String.join (trouble.lines.map fun line => line ++ "\n")
  tree := tree

/-- Run the program. -/
def run (tree : Files.Tree) (arguments : List String) :
    Except Refusal Outcome := do
  let request ← readArguments tree arguments
  match perform tree request with
  | .ok outcome => .ok outcome
  | .error (trouble, tree) => .ok (trouble.outcome tree)

end Longhand.CommandLine
