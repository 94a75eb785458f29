import Longhand.Json.Reader
import Longhand.Query.Operation
import Longhand.Text.Blank

/-!
# Built-in functions

A function reads its input and one datum for each argument and has a single
result or fails.  Whatever can be said in terms of these is a definition of the
query language itself.
-/

namespace Longhand.Query

/-- What a built-in function does with its input and its arguments. -/
abbrev Function := Datum → List Datum → Except Fault Datum

namespace Function

/-- A function without arguments. -/
def ofInput (run : Datum → Except Fault Datum) : Function
  | input, _ => run input

/-- A function with one argument. -/
def ofArgument (run : Datum → Datum → Except Fault Datum) : Function
  | input, [argument] => run input argument
  | input, _ => run input .null

/-- A function of a string. -/
def ofString (run : String → Datum) : Function :=
  ofInput fun input => return run (← input.toText)

/-- A function of two strings. -/
def ofStrings (run : String → String → Datum) : Function :=
  ofArgument fun input argument =>
    return run (← input.toText) (← argument.toText)

/-- The size of a datum: the magnitude of a number, the characters of a string,
the items or members of the others. -/
def length : Datum → Except Fault Datum
  | .null => .ok (.ofNat 0)
  | .bool value =>
      .error (.ofText ((Datum.bool value).text ++ " has no length"))
  | .number value => .ok (.number value.magnitude)
  | .string text => .ok (.ofNat text.length)
  | .array _ items => .ok (.ofNat items.length)
  | .object _ ms => .ok (.ofNat ms.length)

/-- The keys of a datum in their order. -/
def keys : Datum → Except Fault Datum
  | .array _ items => .ok (.newArray ((List.range items.length).map .ofNat))
  | .object _ ms => .ok (.newArray ((Members.keys ms).map .string))
  | other => .error (.misfit other Datum.iterableName)

/-- Whether a datum has a part under a key. -/
def has (input key : Datum) : Except Fault Datum :=
  match input, key with
  | .array _ items, .number (.int place) =>
      if 0 ≤ place then .ok (.bool (place < items.length))
      else .error (.noPart input key)
  | .object _ ms, .string name => .ok (.bool (Members.contains ms name))
  | _, _ => .error (.noPart input key)

mutual
/-- Whether a datum contains another: strings as a part of the text, arrays and
objects when each part of the other is contained in one of theirs. -/
def contains (whole : Datum) : Datum → Bool
  | .string part =>
      match whole with
      | .string text => Text.occursIn part text
      | _ => false
  | .array _ parts =>
      match whole with
      | .array _ items => containsItems items parts
      | _ => false
  | .object _ parts =>
      match whole with
      | .object _ ms => containsMembers ms parts
      | _ => false
  | other => whole.same other

/-- Whether each part is contained in an item. -/
def containsItems (items : List Datum) : List Datum → Bool
  | [] => true
  | part :: rest =>
      items.any (fun item => contains item part) && containsItems items rest

/-- Whether each part is contained in the member of its key. -/
def containsMembers (ms : List (String × Datum)) :
    List (String × Datum) → Bool
  | [] => true
  | (key, part) :: rest =>
      (match Members.get? ms key with
        | some value => contains value part
        | none => false) &&
        containsMembers ms rest
end

/-- The places at which a part occurs in a string or an array. -/
def places (input part : Datum) : Except Fault Datum :=
  match input, part with
  | .string _, .string "" => .ok (.newArray [])
  | .array _ _, .array _ [] => .ok (.newArray [])
  | .string whole, .string part =>
      .ok (found (Text.positions (· == ·) part.toList whole.toList))
  | .array _ whole, .array _ part =>
      .ok (found (Text.positions Datum.same part whole))
  | .array _ whole, part => .ok (found (Text.positions Datum.same [part] whole))
  | _, _ => .error (.noPart input part)
where
  /-- Places as data. -/
  found (places : List Nat) : Datum :=
    .newArray (places.map Datum.ofNat)

/-- The items of an array in their order. -/
def sort (input : Datum) : Except Fault Datum :=
  return .newArray ((← input.toItems).mergeSort Datum.staysBefore)

/-- A text, or the text of another datum. -/
def toText (input : Datum) : Datum :=
  match input with
  | .string text => .string text
  | other => .string other.text

/-- A number, or the number that a text stands for. -/
def toNumber (input : Datum) : Except Fault Datum :=
  match input with
  | .number value => .ok (.number value)
  | .string text =>
      match Json.parseWhole text with
      | some (.number value) => .ok (.number (.ofNumber value))
      | _ => .error (.ofText ("cannot parse " ++ input.text ++ " as number"))
  | other => .error (.misfit other "number")

/-- The document that a text stands for. -/
def readText (input : Datum) : Except Fault Datum := do
  match Json.parseWhole (← input.toText) with
  | some value => .ok (.ofValue value)
  | none => .error (.ofText ("cannot parse " ++ input.text ++ " as JSON"))

/-- The largest integer below, or above, or nearest to a number, as the given
rounding says. -/
def rounded (round : Float → Float) (input : Datum) : Except Fault Datum :=
  match input with
  | .number (.int value) => .ok (.ofInt value)
  | .number value =>
      let result := Double.ofFloat (round value.toDouble.toFloat)
      if result.isFinite then
        let magnitude : Int :=
          result.significand * Nat.pow 2 result.exponent.toNat /
            Nat.pow 2 (-result.exponent).toNat
        let whole := if result.isNegative then -magnitude else magnitude
        .ok (.number (.ofWhole whole))
      else .ok (.number (.double result))
  | other => .error (.misfit other "number")

/-- The pieces of a text between the places of a separator. -/
def split (input separator : Datum) : Except Fault Datum :=
  match input, separator with
  | .string text, .string separator =>
      .ok (.newArray ((Text.parts separator text).map .string))
  | _, _ => .error (.ofText "split input and separator must be strings")

/-- The character of a code point. -/
def toChar (code : Datum) : Except Fault Char := do
  let code ← code.toInt
  match code with
  | .ofNat n =>
      if Nat.pow 2 32 ≤ n then .error outOfRange
      else if n.isValidChar then .ok (Char.ofNat n)
      else .error (.ofText ("cannot use " ++ toString n ++ " as character"))
  | .negSucc _ => .error outOfRange
where
  /-- The fault of a number that is too small or too large for a code point. -/
  outOfRange : Fault :=
    .ofText "out of range integral type conversion attempted"

/-- The text made of the characters of code points. -/
def implode (input : Datum) : Except Fault Datum := do
  let chars ← (← input.toItems).mapM toChar
  .ok (.string (String.ofList chars))

/-- A text without another at its beginning, and anything else as it is. -/
def withoutStart (input start : Datum) : Datum :=
  match input, start with
  | .string text, .string start =>
      if start.toList.isPrefixOf text.toList then
        .string (String.ofList (text.toList.drop start.length))
      else input
  | _, _ => input

/-- A text without another at its end, and anything else as it is. -/
def withoutEnd (input ending : Datum) : Datum :=
  match input, ending with
  | .string text, .string ending =>
      if ending.toList.isSuffixOf text.toList then
        .string (String.ofList (text.toList.take (text.length - ending.length)))
      else input
  | _, _ => input

/-- The functions, with the number of their arguments. -/
def table : List ((String × Nat) × Function) :=
  [ (("null", 0), ofInput fun _ => .ok .null),
    (("true", 0), ofInput fun _ => .ok (.bool true)),
    (("false", 0), ofInput fun _ => .ok (.bool false)),
    (("error", 0), ofInput fun input => .error (.raised input)),
    (("length", 0), ofInput length),
    (("utf8bytelength", 0), ofString fun text => .ofNat text.utf8ByteSize),
    (("keys_unsorted", 0), ofInput keys),
    (("has", 1), ofArgument has),
    (("contains", 1), ofArgument fun input part =>
      .ok (.bool (contains input part))),
    (("indices", 1), ofArgument places),
    (("type", 0), ofInput fun input => .ok (.string input.kind)),
    (("tojson", 0), ofInput fun input => .ok (.string input.text)),
    (("fromjson", 0), ofInput readText),
    (("tostring", 0), ofInput fun input => .ok (toText input)),
    (("tonumber", 0), ofInput toNumber),
    (("sort", 0), ofInput sort),
    (("reverse", 0), ofInput fun input =>
      return .newArray (← input.toItems).reverse),
    (("split", 1), ofArgument split),
    (("startswith", 1), ofStrings fun text start =>
      .bool (start.toList.isPrefixOf text.toList)),
    (("endswith", 1), ofStrings fun text ending =>
      .bool (ending.toList.isSuffixOf text.toList)),
    (("ltrimstr", 1), ofArgument fun input start =>
      .ok (withoutStart input start)),
    (("rtrimstr", 1), ofArgument fun input ending =>
      .ok (withoutEnd input ending)),
    (("trim", 0), ofString fun text =>
      .string (Text.dropBlanksAtEnd (Text.dropBlanks text))),
    (("ltrim", 0), ofString fun text => .string (Text.dropBlanks text)),
    (("rtrim", 0), ofString fun text => .string (Text.dropBlanksAtEnd text)),
    (("ascii_upcase", 0), ofString fun text =>
      .string (text.map Char.toUpper)),
    (("ascii_downcase", 0), ofString fun text =>
      .string (text.map Char.toLower)),
    (("explode", 0), ofString fun text =>
      .newArray (text.toList.map fun c => .ofNat c.toNat)),
    (("implode", 0), ofInput implode),
    (("floor", 0), ofInput (rounded Float.floor)),
    (("ceil", 0), ofInput (rounded Float.ceil)),
    (("round", 0), ofInput (rounded Float.round)) ]

/-- The function of a name and a number of arguments. -/
def find? (name : String) (arity : Nat) : Option Function :=
  (table.find? fun entry => entry.1 = (name, arity)).map Prod.snd

end Function

end Longhand.Query
