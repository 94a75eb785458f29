import Longhand.Settings
import Longhand.Json.Printer
import Longhand.Json.Reader

/-!
# Reading settings

Settings are an object with known keys, or an array of the settings in order.
They are read straight from the text, so a value of the wrong kind is reported
with its position.
-/

namespace Longhand.Settings

open Json

/-- A number where something else is wanted. -/
def foundNumber : Number → Found
  | .int value => .integer value
  | .double value => .double (numberLayout.write value)

/-- The fault of a value of the wrong kind.  A scalar is read first and the
position is behind it; the position of an array or object is in front of it. -/
def wrongKind (wanted : String) (c : Cursor) : Fault :=
  let refuse (found : Found) (c : Cursor) :=
    c.fault (.invalidType found wanted)
  let word (letters : List Char) (found : Found) :=
    match readWord letters c.next with
    | .ok c => refuse found c
    | .error fault => fault
  match c.peek? with
  | some 'n' => word ['u', 'l', 'l'] .null
  | some 't' => word ['r', 'u', 'e'] (.bool true)
  | some 'f' => word ['a', 'l', 's', 'e'] (.bool false)
  | some '-' =>
      match readNumber true c.next with
      | .ok (n, c) => refuse (foundNumber n) c
      | .error fault => fault
  | some '"' =>
      match readString c.next with
      | .ok (text, c) => refuse (.string text) c
      | .error fault => fault
  | some '[' => refuse .sequence c
  | some '{' => refuse .map c
  | some ch =>
      if (digit? ch).isSome then
        match readNumber false c with
        | .ok (n, c) => refuse (foundNumber n) c
        | .error fault => fault
      else c.faultAhead .expectedValue
  | none => c.faultAhead .endInValue

/-- Read a string. -/
def readText (wanted : String) : Reader String := fun c =>
  let c := c.skipBlanks
  match c.peek? with
  | some '"' => readString c.next
  | _ => .error (wrongKind wanted c)

/-- Read a string of one character. -/
def readChar : Reader Char := fun c => do
  let (text, c) ← readText "a character" c
  match text.toList with
  | [ch] => .ok (ch, c)
  | _ => .error (c.fault (.invalidValue (.string text) "a character"))

/-- Read an array of strings. -/
def readTexts : Reader (List String) := fun c =>
  let c := c.skipBlanks
  match c.peek? with
  | some '[' => readItems (readText "a string") (c.left.length + 1) 0 c.next
  | _ => .error (wrongKind "a sequence" c)

/-- Read a natural number below `2 ^ 64`. -/
def readSize : Reader Nat := fun c => do
  let c := c.skipBlanks
  let accept (n : Number) (c : Cursor) : Except Fault (Nat × Cursor) :=
    match n with
    | .int (.ofNat value) => .ok (value, c)
    | .int value => .error (c.fault (.invalidValue (.integer value) "usize"))
    | .double _ => .error (c.fault (.invalidType (foundNumber n) "usize"))
  match c.peek? with
  | some '-' => do
      let (n, c) ← readNumber true c.next
      accept n c
  | some ch =>
      if (digit? ch).isSome then do
        let (n, c) ← readNumber false c
        accept n c
      else .error (wrongKind "usize" c)
  | none => .error (wrongKind "usize" c)

/-- Read the name of a conflict policy. -/
def readPolicyName (wanted : String) : Reader (String × ConflictPolicy) :=
  fun c => do
    let (name, c) ← readText wanted c
    match policyNamed? name with
    | some policy => .ok ((name, policy), c)
    | none =>
        .error (c.fault (.unknownVariant name
          [policyName .lastWriteWins, policyName .reject]))

/-- Read `null`. -/
def readNull (c : Cursor) : Except Fault Cursor :=
  let c := c.skipBlanks
  match c.peek? with
  | some 'n' => readWord ['u', 'l', 'l'] c.next
  | _ => .error (wrongKind "unit" c)

/-- Find the quote of a key that has to follow. -/
def readKeyQuote (c : Cursor) : Except Fault Cursor :=
  let c := c.skipBlanks
  match c.peek? with
  | some '"' => .ok c
  | some _ => .error (c.faultAhead .keyNotString)
  | none => .error (c.faultAhead .endInObject)

/-- Read a conflict policy: its name, or an object with the name as its key and
`null` as the value. -/
def readPolicy : Reader ConflictPolicy := fun c => do
  let c := c.skipBlanks
  match c.peek? with
  | some '"' => do
      let ((_, policy), c) ← readPolicyName "variant identifier" c
      .ok (policy, c)
  | some '{' => do
      let c ← readKeyQuote c.next
      let ((name, policy), c) ←
        within .unknown (readPolicyName "variant identifier" c)
      let c ← readColon c
      let c ← within (.key name) (readNull c)
      let c := c.skipBlanks
      match c.peek? with
      | some '}' => .ok (policy, c.next)
      | some _ => .error (c.fault .expectedValue)
      | none => .error (c.fault .endInObject)
  | some _ => .error (c.faultAhead .expectedValue)
  | none => .error (c.faultAhead .endInValue)

/-- Read one setting and put it among the others. -/
def readField (settings : Settings) (field : Field) : Reader Settings :=
  fun c => do
    match field with
    | .pathSeparator =>
        let (ch, c) ← readChar c
        .ok ({ settings with pathSeparator := ch }, c)
    | .namespaceMark =>
        let (ch, c) ← readChar c
        .ok ({ settings with namespaceMark := ch }, c)
    | .namespaceSeparator =>
        let (ch, c) ← readChar c
        .ok ({ settings with namespaceSeparator := ch }, c)
    | .referenceKey =>
        let (text, c) ← readText "a string" c
        .ok ({ settings with referenceKey := text }, c)
    | .builtinTypes =>
        let (texts, c) ← readTexts c
        .ok ({ settings with builtinTypes := texts }, c)
    | .pathConflicts =>
        let (policy, c) ← readPolicy c
        .ok ({ settings with pathConflicts := policy }, c)
    | .referenceDepth =>
        let (n, c) ← readSize c
        .ok ({ settings with referenceDepth := n }, c)
    | .definitionDepth =>
        let (n, c) ← readSize c
        .ok ({ settings with definitionDepth := n }, c)

/-- A fault of the key of a setting.  The blanks behind the key are taken before
it is looked at, and so is a brace that ends the settings there. -/
def wrongKey (c : Cursor) (problem : Problem) : Fault :=
  let c := c.skipBlanks
  (if c.peek? = some '}' then c.next else c).fault problem

/-- Read settings behind an opening brace.  The first argument bounds the
members left and `seen` lists the settings that were read. -/
def readNamed : Nat → List Field → Settings → Reader Settings
  | 0, _, _, c => .error (c.fault .endInObject)
  | rounds + 1, seen, settings, c => do
      let (key, c) ← readKey seen.isEmpty c
      match key with
      | none => .ok (settings, c.next)
      | some key =>
          match Field.named? key with
          | none =>
              within (.key key)
                (.error
                  (wrongKey c (.unknownField key (Field.all.map Field.name))))
          | some field =>
              if seen.contains field then
                .error (wrongKey c (.duplicateField key))
              else
                let c ← readColon c
                let (settings, c) ←
                  within (.key key) (settings.readField field c)
                readNamed rounds (field :: seen) settings c

/-- Read settings in order behind an opening bracket. -/
def readListed : List Field → Nat → Settings → Reader Settings
  | [], _, settings, c =>
      let c := c.skipBlanks
      match c.peek? with
      | some ']' => .ok (settings, c.next)
      | some ',' =>
          let c := c.next.skipBlanks
          if c.peek? = some ']' then .error (c.faultAhead .trailingComma)
          else .error (c.faultAhead .trailingCharacters)
      | some _ => .error (c.faultAhead .trailingCharacters)
      | none => .error (c.faultAhead .endInList)
  | field :: rest, index, settings, c => do
      let (more, c) ← nextItem (index == 0) c
      if more then
        let (settings, c) ←
          within (.index index) (settings.readField field c)
        readListed rest (index + 1) settings c
      else .ok (settings, c.next)

/-- Read settings at a cursor. -/
def read : Reader Settings := fun c =>
  let c := c.skipBlanks
  match c.peek? with
  | some '[' => readListed Field.all 0 {} c.next
  | some '{' => readNamed (c.left.length + 1) [] {} c.next
  | _ => .error (wrongKind "struct CompilerConfig" c)

/-- The settings at the start of a text. -/
def parse (text : String) : Except Fault Settings :=
  (read (Cursor.start text.toByteArray.data.toList)).map Prod.fst

end Longhand.Settings
