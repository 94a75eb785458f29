import Longhand.Files.Tree
import Longhand.Json.Printer
import Longhand.Json.Reader
import Longhand.Namespace
import Longhand.Text.Outline
import Longhand.Text.Quoted
import Longhand.Text.Terminal

/-!
# Arguments of the command line

The command line has one command, which compiles a document.  Options may stand
before or behind the document; an option with a value takes it from behind an
equals sign or from the next argument.  A value that is itself an option is not
taken.  The first argument that cannot be accepted is refused.
-/

namespace Longhand.CommandLine

/-- Options that take a value. -/
inductive ValueOption where
  | namespaces
  | definitions
  | checks
  | config
  | overrides
  | out
  deriving DecidableEq, Repr

/-- Options that are given or not. -/
inductive Flag where
  | compact
  | noOp
  deriving DecidableEq, Repr

/-- The options of the command. -/
inductive Opt where
  | value (option : ValueOption)
  | flag (flag : Flag)
  | help
  deriving DecidableEq, Repr

/-- The long names of options. -/
def optionNamed? : String → Option Opt
  | "namespace" => some (.value .namespaces)
  | "definition" => some (.value .definitions)
  | "check" => some (.value .checks)
  | "config" => some (.value .config)
  | "set" => some (.value .overrides)
  | "out" => some (.value .out)
  | "compact" => some (.flag .compact)
  | "no-op" => some (.flag .noOp)
  | "help" => some .help
  | _ => none

/-- The one-letter names of options. -/
def optionLettered? : Char → Option Opt
  | 'n' => some (.value .namespaces)
  | 'd' => some (.value .definitions)
  | 'o' => some (.value .out)
  | 'h' => some .help
  | _ => none

/-- How an option with a value is shown. -/
def ValueOption.usage : ValueOption → String
  | namespaces => "--namespace <NAMESPACE>"
  | definitions => "--definition <DEFINITION>"
  | checks => "--check <CHECK>"
  | config => "--config <CONFIG>"
  | overrides => "--set <SET>"
  | out => "--out <OUT>"

/-- How a flag is shown. -/
def Flag.usage : Flag → String
  | compact => "--compact"
  | noOp => "--no-op"

/-- How the option for help is shown. -/
def helpUsage : String := "--help"

/-- How the option for the version is shown. -/
def versionUsage : String := "--version"

/-- How the document is shown. -/
def documentUsage : String := "<FILE>"

/-- What a compilation was asked to do. -/
structure Request where
  file : String
  namespaces : List String := []
  definitions : List String := []
  checks : List String := []
  config : Option String := none
  overrides : List (String × Value) := []
  out : Option String := none
  isCompact : Bool := false
  noOp : Bool := false

/-! ## Refusals -/

/-- Why the value of an option is not accepted. -/
inductive ValueFault where
  | invalidNamespace (name : String)
  | noAssignment (text : String)
  | emptyPath
  | unreadable (path : String) (fault : Files.Fault)
  | malformed (path : String) (fault : Json.Fault)
  deriving DecidableEq, Repr

/-- The wording of a fault of a value. -/
def ValueFault.text : ValueFault → String
  | invalidNamespace name => "`" ++ name ++ "` is not a valid namespace name"
  | noAssignment text => "expected PATH=VALUE, got `" ++ text ++ "`"
  | emptyPath => "the path of an assignment cannot be empty"
  | unreadable path fault => "failed to read " ++ path ++ ": " ++ fault.text
  | malformed path fault => "failed to parse " ++ path ++ ": " ++ fault.text

/-- Why arguments are refused. -/
inductive Refusal where
  /-- No command was given. -/
  | noCommand
  | helpWanted
  | versionWanted
  | unknownCommand (name : String)
  | unexpectedArgument (shown : String)
  | unexpectedValue (value usage : String)
  | missingValue (usage : String)
  | repeated (usage : String)
  | invalidValue (value usage : String) (fault : ValueFault)
  | missingDocument
  deriving DecidableEq, Repr

/-- What the program does, in one line. -/
def purpose : String :=
  "compile shorthand JSON schema documents into fully expanded JSON"

/-- An emphasized text between quotes. -/
def quote (text : String) : String :=
  "'" ++ Text.Terminal.emphasized text ++ "'"

/-- An error as a terminal shows it, with a hint at the help. -/
def complaint (text : String) : String :=
  Text.Terminal.emphasized "error:" ++ " " ++ text ++
    "\n\nFor more information, try " ++ quote helpUsage ++ "."

/-- The wording of a refusal on a terminal. -/
def Refusal.wording : Refusal → String
  | noCommand => purpose
  | helpWanted => purpose
  | versionWanted => "longhand 0.1.0"
  | unknownCommand name => complaint ("unrecognized subcommand " ++ quote name)
  | unexpectedArgument shown =>
      complaint ("unexpected argument " ++ quote shown ++ " found")
  | unexpectedValue value usage =>
      complaint
        ("unexpected value " ++ quote value ++ " for " ++ quote usage ++
          " found; no more were expected")
  | missingValue usage =>
      complaint
        ("a value is required for " ++ quote usage ++ " but none was supplied")
  | repeated usage =>
      complaint
        ("the argument " ++ quote usage ++ " cannot be used multiple times")
  | invalidValue value usage fault =>
      complaint
        ("invalid value " ++ quote value ++ " for " ++ quote usage ++ ": " ++
          fault.text)
  | missingDocument =>
      complaint
        ("the following required arguments were not provided:\n  " ++
          documentUsage)

/-- The wording of a refusal for a reader who is no terminal. -/
def Refusal.text (refusal : Refusal) : String :=
  Text.Terminal.shown refusal.wording

/-! ## Values -/

/-- What announces that an assigned value stands in a file. -/
def requireMark : String := "require://"

/-- The document in a required file. -/
def requireFile (tree : Files.Tree) (path : String) :
    Except ValueFault Value :=
  match tree.readText path with
  | .error fault => .error (.unreadable path fault)
  | .ok source =>
      match Json.parse source with
      | .ok value => .ok value
      | .error fault => .error (.malformed path fault)

/-- An assignment of a value to a path.  The value is a whole JSON text, the
name of a file behind a mark, or else a plain string. -/
def assignment (tree : Files.Tree) (text : String) :
    Except ValueFault (String × Value) :=
  match Text.splitOnFirst '=' text with
  | none => .error (.noAssignment text)
  | some (path, value) =>
      if path.isEmpty then .error .emptyPath
      else if requireMark.isPrefixOf value then do
        let file := String.ofList (value.toList.drop requireMark.length)
        let required ← requireFile tree file
        .ok (path, required)
      else .ok (path, (Json.parseWhole value).getD (.string value))

/-- Take the value of an option. -/
def takeValue (tree : Files.Tree) (request : Request) (option : ValueOption)
    (value : String) : Except Refusal Request :=
  match option with
  | .namespaces =>
      if Namespacing.isValidName value then
        .ok { request with namespaces := request.namespaces ++ [value] }
      else
        .error (.invalidValue value option.usage (.invalidNamespace value))
  | .definitions =>
      .ok { request with definitions := request.definitions ++ [value] }
  | .checks => .ok { request with checks := request.checks ++ [value] }
  | .config =>
      if request.config.isSome then .error (.repeated option.usage)
      else if value.isEmpty then .error (.missingValue option.usage)
      else .ok { request with config := some value }
  | .overrides =>
      match assignment tree value with
      | .ok assigned =>
          .ok { request with overrides := request.overrides ++ [assigned] }
      | .error fault => .error (.invalidValue value option.usage fault)
  | .out =>
      if request.out.isSome then .error (.repeated option.usage)
      else if value.isEmpty then .error (.missingValue option.usage)
      else .ok { request with out := some value }

/-- Set a flag, which may be given once. -/
def setFlag (request : Request) (flag : Flag) : Except Refusal Request :=
  match flag with
  | .compact =>
      if request.isCompact then .error (.repeated flag.usage)
      else .ok { request with isCompact := true }
  | .noOp =>
      if request.noOp then .error (.repeated flag.usage)
      else .ok { request with noOp := true }

/-! ## Reading arguments -/

/-- What was read so far: the request, the document if it was given, and the
option or document whose value has not been looked at yet. -/
structure Progress where
  request : Request := { file := "" }
  hasFile : Bool := false
  pending : Option (Option ValueOption × Option String) := none

/-- Look at the value that is pending.  An option is pending without a value
until the next argument; the document is pending as no option. -/
def Progress.settle (tree : Files.Tree) (progress : Progress) :
    Except Refusal Progress :=
  match progress.pending with
  | none => .ok progress
  | some (some option, some value) => do
      let request ← takeValue tree progress.request option value
      .ok { progress with request, pending := none }
  | some (some option, none) => .error (.missingValue option.usage)
  | some (none, value) =>
      match value with
      | some file =>
          if file.isEmpty then .error (.missingValue documentUsage)
          else
            .ok { progress with
              request := { progress.request with file }
              pending := none }
      | none => .error (.missingValue documentUsage)

/-- Take an option with the value behind its equals sign or in the same
argument, if there is one. -/
def Progress.takeOption (tree : Files.Tree) (progress : Progress) (opt : Opt)
    (attached : Option String) : Except Refusal Progress :=
  match opt with
  | .help =>
      match attached with
      | some value => .error (.unexpectedValue value helpUsage)
      | none => do
          let _ ← progress.settle tree
          .error .helpWanted
  | .flag flag =>
      match attached with
      | some value => .error (.unexpectedValue value flag.usage)
      | none => do
          let progress ← progress.settle tree
          let request ← setFlag progress.request flag
          .ok { progress with request }
  | .value option => do
      let progress ← progress.settle tree
      match attached with
      | some value =>
          let request ← takeValue tree progress.request option value
          .ok { progress with request }
      | none => .ok { progress with pending := some (some option, none) }

/-- Take a long option, given without its two hyphens. -/
def Progress.takeLong (tree : Files.Tree) (progress : Progress)
    (body : String) : Except Refusal Progress :=
  let (name, attached) :=
    match Text.splitOnFirst '=' body with
    | some (name, value) => (name, some value)
    | none => (body, none)
  match optionNamed? name with
  | some opt => progress.takeOption tree opt attached
  | none => .error (.unexpectedArgument ("--" ++ name))

/-- Take one-letter options, given without their hyphen.  The first one that
wants a value takes the rest of the argument. -/
def Progress.takeLetters (tree : Files.Tree) (progress : Progress) :
    List Char → Except Refusal Progress
  | [] => .ok progress
  | letter :: rest =>
      match optionLettered? letter with
      | none =>
          .error (.unexpectedArgument ("-" ++ String.singleton letter))
      | some (.value option) =>
          let attached :=
            match rest with
            | [] => none
            | '=' :: value => some (String.ofList value)
            | value => some (String.ofList value)
          progress.takeOption tree (.value option) attached
      | some opt => do
          let progress ← progress.takeOption tree opt none
          progress.takeLetters tree rest

/-- Take an argument that is no option. -/
def Progress.takePlain (tree : Files.Tree) (progress : Progress)
    (argument : String) : Except Refusal Progress :=
  if progress.hasFile then .error (.unexpectedArgument argument)
  else do
    let progress ← progress.settle tree
    .ok { progress with
      hasFile := true
      pending := some (none, some argument) }

/-- Take the arguments of the command one after another.  Behind a double
hyphen no argument is an option. -/
def Progress.takeAll (tree : Files.Tree) (onlyPlain : Bool) :
    Progress → List String → Except Refusal Progress
  | progress, [] => progress.settle tree
  | progress, argument :: rest => do
      let plain (progress : Progress) :=
        match progress.pending with
        | some (some option, none) =>
            if onlyPlain then progress.takePlain tree argument
            else
              .ok { progress with pending := some (some option, some argument) }
        | _ => progress.takePlain tree argument
      if onlyPlain then
        let progress ← plain progress
        progress.takeAll tree true rest
      else
        match argument.toList with
        | ['-', '-'] => progress.takeAll tree true rest
        | '-' :: '-' :: body =>
            let progress ← progress.takeLong tree (String.ofList body)
            progress.takeAll tree false rest
        | '-' :: letter :: letters =>
            let progress ← progress.takeLetters tree (letter :: letters)
            progress.takeAll tree false rest
        | _ =>
            let progress ← plain progress
            progress.takeAll tree false rest

/-- Read the arguments of the command. -/
def readCommand (tree : Files.Tree) (arguments : List String) :
    Except Refusal Request := do
  let progress ← Progress.takeAll tree false {} arguments
  if progress.hasFile then .ok progress.request
  else .error .missingDocument

/-- The commands of the program. -/
def commands : List String := ["compile", "help"]

/-- What is asked for behind the command for help: the help for a command, which
has no commands of its own. -/
def helpOn : List String → Refusal
  | [] => .helpWanted
  | name :: rest =>
      if commands.contains name then
        match rest with
        | [] => .helpWanted
        | inner :: _ => .unknownCommand inner
      else .unknownCommand name

/-- The refusal of a long option in place of a command, given without its two
hyphens. -/
def refuseLong (body : String) : Refusal :=
  let (name, attached) :=
    match Text.splitOnFirst '=' body with
    | some (name, value) => (name, some value)
    | none => (body, none)
  let wanted (request : Refusal) (usage : String) : Refusal :=
    match attached with
    | some value => .unexpectedValue value usage
    | none => request
  if name = "help" then wanted .helpWanted helpUsage
  else if name = "version" then wanted .versionWanted versionUsage
  else .unexpectedArgument ("--" ++ name)

/-- The refusal of a first argument that is not the name of the command. -/
def refuseFirst (argument : String) : Refusal :=
  match argument.toList with
  | '-' :: '-' :: body => refuseLong (String.ofList body)
  | '-' :: 'h' :: _ => .helpWanted
  | '-' :: 'V' :: _ => .versionWanted
  | '-' :: letter :: _ => .unexpectedArgument ("-" ++ String.singleton letter)
  | _ => .unknownCommand argument

/-- Read the arguments of the program: the name of its command and what the
command takes.  A command can not stand behind a double hyphen. -/
def readArguments (tree : Files.Tree) :
    List String → Except Refusal Request
  | [] => .error .noCommand
  | "compile" :: rest => readCommand tree rest
  | "help" :: rest => .error (helpOn rest)
  | ["--"] => .error .noCommand
  | "--" :: name :: _ =>
      if commands.contains name then .error (.unexpectedArgument name)
      else .error (.unknownCommand name)
  | argument :: _ => .error (refuseFirst argument)

/-! ## Showing a request -/

/-- Texts in a list. -/
def outlineTexts (texts : List String) : Text.Outline :=
  .list "[" "]" (texts.map fun text => .line (Text.quoted text))

/-- A path that may be missing. -/
def outlinePath? : Option String → Text.Outline
  | none => .line "None"
  | some path => .list "Some(" ")" [.line (Text.quoted path)]

mutual
/-- The outline of a value with the kind of each part. -/
def outlineValue : Value → Text.Outline
  | .null => .line "Null"
  | .bool true => .line "Bool(true)"
  | .bool false => .line "Bool(false)"
  | .number n => .line ("Number(" ++ Json.numberText n ++ ")")
  | .string text => .line ("String(" ++ Text.quoted text ++ ")")
  | .array items => .group "Array [" "]" (outlineItems items)
  | .object members => .group "Object \x7b" "\x7d" (outlineMembers members)

/-- The outlines of items. -/
def outlineItems : List Value → List (String × Text.Outline)
  | [] => []
  | item :: rest => ("", outlineValue item) :: outlineItems rest

/-- The outlines of members, labelled with their keys. -/
def outlineMembers : List (String × Value) → List (String × Text.Outline)
  | [] => []
  | (key, value) :: rest =>
      (Text.quoted key ++ ": ", outlineValue value) :: outlineMembers rest
end

/-- A request in full, for a reader who wants to know how the arguments were
understood. -/
def Request.outline (request : Request) : Text.Outline :=
  let flag (given : Bool) : Text.Outline :=
    .line (if given then "true" else "false")
  let overrides :=
    request.overrides.map fun (path, value) =>
      Text.Outline.list "(" ")"
        [.line (Text.quoted path), outlineValue value]
  let settings :=
    Text.Outline.group "ContextSettings \x7b" "\x7d"
      [("namespace: ", outlineTexts request.namespaces),
        ("definition: ", outlineTexts request.definitions),
        ("check: ", outlineTexts request.checks),
        ("config: ", outlinePath? request.config),
        ("set: ", .list "[" "]" overrides)]
  let command :=
    Text.Outline.group "CompileOut \x7b" "\x7d"
      [("file: ", .line (Text.quoted request.file)),
        ("context_settings: ", settings),
        ("out: ", outlinePath? request.out),
        ("compact: ", flag request.isCompact),
        ("no_op: ", flag request.noOp)]
  .group "CommandLineInterface \x7b" "\x7d"
    [("cmd: ", .list "Compile(" ")" [command])]

end Longhand.CommandLine
