import Longhand.Query.Operator
import Longhand.Query.Token

/-!
# Reading expressions

An expression is a chain of operands.  An operand is a form of its own, or a
definition or a label with all that follows, and any number of selections behind
it.  No word is reserved: one that begins no form is the name of a definition.

Every function takes a number that bounds how deep it may descend; the tokens at
hand bound it too, so none that a program needs is missing.
-/

namespace Longhand.Query.Grammar

/-- Reading takes tokens from the front, or fails. -/
abbrev Reading := StateT (List Token) Option

/-- The next token, which stays where it is. -/
def peek? : Reading (Option Token) := fun tokens =>
  some (tokens.head?, tokens)

/-- Take one token away. -/
def skip : Reading Unit := fun tokens =>
  some ((), tokens.tail)

/-- Take a token away if it is the next one. -/
def accept (token : Token) : Reading Bool := fun tokens =>
  match tokens with
  | next :: rest =>
      if next = token then some (true, rest) else some (false, tokens)
  | [] => some (false, [])

/-- Take a token away that has to be the next one. -/
def expect (token : Token) : Reading Unit := do
  if ← accept token then pure () else failure

/-- A variable's name. -/
def variableName : Reading String := do
  match ← peek? with
  | some (.variable name) => skip; pure name
  | _ => failure

/-- Whether marks for an optional part follow; several are as good as one. -/
def optional : Reading Bool := fun tokens =>
  some (tokens.head? = some (.sign "?"),
    tokens.dropWhile (· = .sign "?"))

/-- The name of a definition. -/
def definitionName : Reading String := do
  match ← peek? with
  | some (.word name) => skip; pure name
  | some (.format name) => skip; pure ("@" ++ name)
  | _ => failure

/-- A parameter of a definition. -/
def parameter : Reading Parameter := do
  match ← peek? with
  | some (.word name) => skip; pure (.filter name)
  | some (.variable name) => skip; pure (.variable name)
  | _ => failure

/-- The parameters behind an opening parenthesis or a semicolon. -/
def parameters : Nat → Reading (List Parameter)
  | 0 => failure
  | fuel + 1 => do
      let parameter ← parameter
      if ← accept (.sign ";") then
        let rest ← parameters fuel
        pure (parameter :: rest)
      else
        expect (.sign ")")
        pure [parameter]

/-- The expression of a string: without interpolations it is plain. -/
def textOf (format : Option String) (pieces : List Piece) : Term :=
  match format, pieces with
  | none, [] => .string ""
  | none, [.plain text] => .string text
  | _, _ => .pieces format pieces

mutual
/-- An expression; without commas, a comma ends it. -/
def term : Nat → Bool → Reading Term
  | 0, _ => failure
  | fuel + 1, commas => do
      let head ← operand fuel
      let tail ← operators fuel commas
      pure (Operands.toTerm (head, tail))

/-- Operators, each with the operand behind it. -/
def operators : Nat → Bool → Reading (List (Operator × Term))
  | 0, _ => failure
  | fuel + 1, commas => do
      let found ←
        match ← peek? with
        | some (.word "as") => do
            skip
            let pattern ← pattern fuel
            expect (.sign "|")
            pure (some (Operator.bind pattern))
        | some (.sign ",") =>
            if commas then skip; pure (some .comma) else pure none
        | some (.sign text) | some (.word text) =>
            match Operator.ofText? text with
            | some operator => skip; pure (some operator)
            | none => pure none
        | _ => pure none
      match found with
      | none => pure []
      | some operator => do
          let next ← operand fuel
          let rest ← operators fuel commas
          pure ((operator, next) :: rest)

/-- A form and the selections behind it.  A mark for an optional part that
stands right behind a form makes an attempt of it. -/
def operand : Nat → Reading Term
  | 0 => failure
  | fuel + 1 => do
      match ← peek? with
      | some (.field _) => .select .identity <$> selections fuel
      | some (.sign ".") => do
          skip
          match ← peek? with
          | some .openText | some (.format _) => do
              let name ← quoted fuel
              .select .identity <$> selectionsFrom fuel name
          | _ => behind fuel .identity
      | _ => do
          let base ← form fuel
          behind fuel base

/-- What stands behind a form. -/
def behind : Nat → Term → Reading Term
  | 0, _ => failure
  | fuel + 1, base => do
      let optional ← optional
      let selections ← selections fuel
      pure ((if optional then .attempt base .nothing else base).select
        selections)

/-- A form of its own. -/
def form : Nat → Reading Term
  | 0 => failure
  | fuel + 1 => do
      match ← peek? with
      | some (.number text) => skip; pure (.number text)
      | some (.variable name) => skip; pure (.variable name)
      | some .openText => skip; text fuel none
      | some (.format name) => do
          skip
          if ← accept .openText then text fuel (some ("@" ++ name))
          else
            let arguments ← arguments fuel
            pure (.call ("@" ++ name) arguments)
      | some (.qualified qualifier token) => skip; foreign fuel qualifier token
      | some (.sign "..") => skip; pure .everything
      | some (.sign "-") => do
          skip
          let body ← operand fuel
          pure (.negate body)
      | some (.sign "(") => do
          skip
          let body ← term fuel true
          expect (.sign ")")
          pure body
      | some (.sign "[") => do
          skip
          if ← accept (.sign "]") then pure .emptyArray
          else
            let body ← term fuel true
            expect (.sign "]")
            pure (.array body)
      | some (.sign "\x7b") => do
          skip
          let entries ← entries fuel
          pure (.object entries)
      | some (.word "if") => skip; conditional fuel
      | some (.word "try") => do
          skip
          let body ← operand fuel
          if ← accept (.word "catch") then
            let handler ← operand fuel
            pure (.attempt body handler)
          else pure (.attempt body .nothing)
      | some (.word "reduce") => do
          skip
          let (source, pattern) ← source fuel
          let arguments ← arguments fuel
          pure (.reduce source pattern arguments)
      | some (.word "foreach") => do
          skip
          let (source, pattern) ← source fuel
          let arguments ← arguments fuel
          pure (.foreach source pattern arguments)
      | some (.word "label") => do
          skip
          let name ← variableName
          expect (.sign "|")
          let body ← term fuel true
          pure (.label name body)
      | some (.word "break") => do
          skip
          let name ← variableName
          pure (.leave name)
      | some (.word "def") => do
          skip
          let name ← definitionName
          let parameters ←
            if ← accept (.sign "(") then parameters fuel else pure []
          expect (.sign ":")
          let body ← term fuel true
          expect (.sign ";")
          let rest ← term fuel true
          pure (.define name parameters body rest)
      | some (.word name) => do
          skip
          let arguments ← arguments fuel
          pure (.call name arguments)
      | _ => failure

/-- What a qualifier provides: a variable, or a call, which formats the string
that stands behind the name of a format. -/
def foreign : Nat → String → Token → Reading Term
  | 0, _, _ => failure
  | _ + 1, qualifier, .variable _ => pure (.foreign qualifier [])
  | fuel + 1, qualifier, .format _ => do
      if ← accept .openText then
        let body ← text fuel none
        pure (.pipe (.foreign qualifier []) body)
      else
        let arguments ← arguments fuel
        pure (.foreign qualifier arguments)
  | fuel + 1, qualifier, _ => do
      let arguments ← arguments fuel
      pure (.foreign qualifier arguments)

/-- The values that a state is threaded through, and how they are taken apart. -/
def source : Nat → Reading (Term × Pattern)
  | 0 => failure
  | fuel + 1 => do
      let values ← operand fuel
      expect (.word "as")
      let pattern ← pattern fuel
      pure (values, pattern)

/-- The selections of a chain. -/
def selections : Nat → Reading (List (Selection Term))
  | 0 => failure
  | fuel + 1 => do
      match ← peek? with
      | some (.field name) => do
          skip
          selectionsFrom fuel (.string name)
      | some (.sign "[") => do
          skip
          let selection ← bracket fuel
          let rest ← selections fuel
          pure (selection :: rest)
      | some (.sign ".") => do
          skip
          let name ← quoted fuel
          selectionsFrom fuel name
      | _ => pure []

/-- The selections of a chain that begins with a key. -/
def selectionsFrom : Nat → Term → Reading (List (Selection Term))
  | 0, _ => failure
  | fuel + 1, name => do
      let optional ← optional
      let rest ← selections fuel
      pure (.key name optional :: rest)

/-- A selection behind its opening bracket. -/
def bracket : Nat → Reading (Selection Term)
  | 0 => failure
  | fuel + 1 => do
      if ← accept (.sign "]") then
        let optional ← optional
        pure (.each optional)
      else if ← accept (.sign ":") then
        let stop ← term fuel true
        expect (.sign "]")
        let optional ← optional
        pure (.slice none (some stop) optional)
      else
        let first ← term fuel true
        if ← accept (.sign ":") then
          let stop ←
            if ← accept (.sign "]") then pure none
            else
              let stop ← term fuel true
              expect (.sign "]")
              pure (some stop)
          let optional ← optional
          pure (.slice (some first) stop optional)
        else
          expect (.sign "]")
          let optional ← optional
          pure (.key first optional)

/-- A string, or the name of a format and a string. -/
def quoted : Nat → Reading Term
  | 0 => failure
  | fuel + 1 => do
      match ← peek? with
      | some (.format name) => do
          skip
          expect .openText
          text fuel (some ("@" ++ name))
      | _ => do
          expect .openText
          text fuel none

/-- A string behind its opening quote. -/
def text : Nat → Option String → Reading Term
  | 0, _ => failure
  | fuel + 1, format => do
      let pieces ← pieces fuel
      pure (textOf format pieces)

/-- The pieces of a string behind its opening quote or an interpolation. -/
def pieces : Nat → Reading (List Piece)
  | 0 => failure
  | fuel + 1 => do
      match ← peek? with
      | some (.chunk "") => skip; pieces fuel
      | some (.chunk text) => do
          skip
          let rest ← pieces fuel
          pure (.plain text :: rest)
      | some .openHole => do
          skip
          let body ← term fuel true
          expect .closeHole
          let rest ← pieces fuel
          pure (.hole body :: rest)
      | some .closeText => skip; pure []
      | _ => failure

/-- A conditional behind its first word. -/
def conditional : Nat → Reading Term
  | 0 => failure
  | fuel + 1 => do
      let test ← term fuel true
      expect (.word "then")
      let positive ← term fuel true
      if ← accept (.word "elif") then
        let negative ← conditional fuel
        pure (.conditional test positive negative)
      else if ← accept (.word "else") then
        let negative ← term fuel true
        expect (.word "end")
        pure (.conditional test positive negative)
      else
        expect (.word "end")
        pure (.conditional test positive .identity)

/-- The arguments of a call, if there are any. -/
def arguments : Nat → Reading (List Term)
  | 0 => failure
  | fuel + 1 => do
      if ← accept (.sign "(") then argumentsInside fuel else pure []

/-- The arguments of a call behind the opening parenthesis. -/
def argumentsInside : Nat → Reading (List Term)
  | 0 => failure
  | fuel + 1 => do
      let argument ← term fuel true
      if ← accept (.sign ";") then
        let rest ← argumentsInside fuel
        pure (argument :: rest)
      else
        expect (.sign ")")
        pure [argument]

/-- The entries of an object behind the opening brace or a comma; a comma may
stand behind the last one. -/
def entries : Nat → Reading (List (Term × Option Term))
  | 0 => failure
  | fuel + 1 => do
      if ← accept (.sign "\x7d") then pure []
      else
        let entry ← entry fuel
        if ← accept (.sign ",") then
          let rest ← entries fuel
          pure (entry :: rest)
        else
          expect (.sign "\x7d")
          pure [entry]

/-- An entry of an object: a variable alone stands for itself under its name. -/
def entry : Nat → Reading (Term × Option Term)
  | 0 => failure
  | fuel + 1 => do
      match ← peek? with
      | some (.variable name) => do
          skip
          if ← accept (.sign ":") then
            let value ← term fuel false
            pure (.variable name, some value)
          else pure (.string name, some (.variable name))
      | some (.sign "(") => do
          let key ← key fuel
          expect (.sign ":")
          let value ← term fuel false
          pure (key, some value)
      | _ => do
          let key ← key fuel
          if ← accept (.sign ":") then
            let value ← term fuel false
            pure (key, some value)
          else pure (key, none)

/-- The key of an entry. -/
def key : Nat → Reading Term
  | 0 => failure
  | fuel + 1 => do
      match ← peek? with
      | some (.word name) => skip; pure (.string name)
      | some (.sign "(") => do
          skip
          let body ← term fuel true
          expect (.sign ")")
          pure body
      | _ => quoted fuel

/-- A pattern. -/
def pattern : Nat → Reading Pattern
  | 0 => failure
  | fuel + 1 => do
      match ← peek? with
      | some (.variable name) => skip; pure (.variable name)
      | some (.sign "[") => skip; .array <$> itemPatterns fuel
      | some (.sign "\x7b") => skip; .object <$> memberPatterns fuel
      | _ => failure

/-- The patterns of items behind the opening bracket or a comma. -/
def itemPatterns : Nat → Reading (List Pattern)
  | 0 => failure
  | fuel + 1 => do
      let first ← pattern fuel
      if ← accept (.sign ",") then
        let rest ← itemPatterns fuel
        pure (first :: rest)
      else
        expect (.sign "]")
        pure [first]

/-- The patterns of members behind the opening brace or a comma; a comma may
stand behind the last one. -/
def memberPatterns : Nat → Reading (List (Term × Pattern))
  | 0 => failure
  | fuel + 1 => do
      let first ← memberPattern fuel
      if ← accept (.sign ",") then
        if ← accept (.sign "\x7d") then pure [first]
        else
          let rest ← memberPatterns fuel
          pure (first :: rest)
      else
        expect (.sign "\x7d")
        pure [first]

/-- The pattern of a member: a variable alone takes the member of its name. -/
def memberPattern : Nat → Reading (Term × Pattern)
  | 0 => failure
  | fuel + 1 => do
      match ← peek? with
      | some (.variable name) => skip; pure (.string name, .variable name)
      | _ => do
          let key ← key fuel
          expect (.sign ":")
          let value ← pattern fuel
          pure (key, value)
end

/-- Words that no expression of a program begins with, because they ask for other
programs. -/
def requests : List String :=
  ["import", "include"]

/-- A program: an expression, in front of which another one may describe it. -/
def program (fuel : Nat) : Reading Term := do
  if ← accept (.word "module") then
    let _ ← term fuel true
    expect (.sign ";")
  match ← peek? with
  | some (.word name) =>
      if requests.contains name then failure else term fuel true
  | _ => term fuel true

/-- The expression that a program is, if it is one. -/
def ofText? (text : String) : Option Term := do
  let tokens ← Token.ofText? text
  let (term, rest) ← (program (12 * (tokens.length + 2))).run tokens
  if rest.isEmpty then some term else none

end Longhand.Query.Grammar
