import Longhand.Query.Outputs
import Longhand.Text.Occurrence

/-!
# Operations on data

Arithmetic and access to parts.  Each is a function that may fail, and a failure
says which data did not fit together.
-/

namespace Longhand.Query

/-- The arithmetic operators. -/
inductive Arithmetic where
  | add
  | subtract
  | multiply
  | divide
  | remainder
  deriving DecidableEq, Inhabited

/-- The comparison operators. -/
inductive Comparison where
  | equal
  | unequal
  | less
  | notGreater
  | greater
  | notLess
  deriving DecidableEq, Inhabited

/-- How an arithmetic operator is written. -/
def Arithmetic.sign : Arithmetic → String
  | add => "+"
  | subtract => "-"
  | multiply => "*"
  | divide => "/"
  | remainder => "%"

/-- Whether two data stand in a relation. -/
def Comparison.holds (comparison : Comparison) (a b : Datum) : Bool :=
  match comparison with
  | equal => a.same b
  | unequal => !a.same b
  | less => a.order b == .lt
  | notGreater => a.order b != .gt
  | greater => a.order b == .gt
  | notLess => a.order b != .lt

namespace Fault

/-- A datum is not what an operation works on. -/
def misfit (datum : Datum) (expected : String) : Fault :=
  ofText ("cannot use " ++ datum.text ++ " as " ++ expected)

/-- A datum has no part of this name. -/
def noPart (datum key : Datum) : Fault :=
  ofText ("cannot index " ++ datum.text ++ " with " ++ key.text)

/-- Two data do not combine. -/
def uncombined (a : Datum) (operator : Arithmetic) (b : Datum) : Fault :=
  ofText
    ("cannot calculate " ++ a.text ++ " " ++ operator.sign ++ " " ++ b.text)

/-- An array has no such place. -/
def outOfBounds (position : Int) : Fault :=
  ofText ("index " ++ toString position ++ " out of bounds")

/-- An expression selects no part of its input. -/
def notAPath : Fault :=
  ofText "invalid path expression"

end Fault

namespace Datum

/-- What has items or members to go through. -/
def iterableName : String := "iterable (array or object)"

/-- The integer of a datum. -/
def toInt : Datum → Except Fault Int
  | number (.int value) => .ok value
  | other => .error (.misfit other "integer")

/-- The text of a string. -/
def toText : Datum → Except Fault String
  | string text => .ok text
  | other => .error (.misfit other "string")

/-- The items of an array. -/
def toItems : Datum → Except Fault (List Datum)
  | array _ items => .ok items
  | other => .error (.misfit other "array")

/-! ## Arithmetic -/

mutual
/-- Merge objects: where both sides hold an object, member by member, and the
right side elsewhere. -/
def merge : Datum → Datum → Datum
  | object _ base, object _ overlay => newObject (mergeMembers base overlay)
  | _, overlay => overlay

/-- Merge members one after another into a base. -/
def mergeMembers (base : List (String × Datum)) :
    List (String × Datum) → List (String × Datum)
  | [] => base
  | (key, value) :: rest =>
      let merged :=
        match Members.get? base key with
        | some old => merge old value
        | none => value
      mergeMembers (Members.set base key merged) rest
end

/-- What arithmetic works on in place of a datum. -/
def operand : Datum → Datum
  | number value => number value.computed
  | other => other

/-- Combine two operands by an arithmetic operator. -/
def combine (operator : Arithmetic) (a b : Datum) : Except Fault Datum :=
  match operator, a, b with
  | .add, number x, number y => .ok (number (x.add y))
  | .add, string x, string y => .ok (string (x ++ y))
  | .add, array _ x, array _ y => .ok (newArray (x ++ y))
  | .add, object _ x, object _ y =>
      .ok (newObject (y.foldl (fun ms pair => Members.set ms pair.1 pair.2) x))
  | .subtract, number x, number y => .ok (number (x.subtract y))
  | .subtract, array _ x, array _ y =>
      .ok (newArray (x.filter fun item => !y.any (order item · == .eq)))
  | .multiply, number x, number y => .ok (number (x.multiply y))
  | .multiply, string text, number (.int count) => .ok (repeated text count)
  | .multiply, number (.int count), string text => .ok (repeated text count)
  | .multiply, object _ _, object _ _ => .ok (merge a b)
  | .divide, number x, number y => .ok (number (x.divide y))
  | .divide, string x, string y =>
      .ok (newArray ((Text.parts y x).map string))
  | .remainder, number x, number y =>
      match x.remainder? y with
      | some result => .ok (number result)
      | none => .error (.uncombined a operator b)
  | _, _, _ => .error (.uncombined a operator b)
where
  /-- A text written several times, or null when that is never. -/
  repeated (text : String) (count : Int) : Datum :=
    if count ≤ 0 then null
    else string (String.join (List.replicate count.toNat text))

/-- Combine two data by an arithmetic operator; nothing is added by null. -/
def calculate (operator : Arithmetic) (a b : Datum) : Except Fault Datum :=
  match operator, a, b with
  | .add, null, other => .ok other
  | .add, other, null => .ok other
  | _, _, _ => combine operator a.operand b.operand

/-- The number with the other sign. -/
def negate : Datum → Except Fault Datum
  | number value => .ok (number value.negate)
  | other => .error (.misfit other "number")

/-! ## Parts -/

/-- The place that an integer names in a list, negative ones from the end. -/
def place? (position : Int) (length : Nat) : Option Nat :=
  let place := if position < 0 then position + length else position
  if 0 ≤ place ∧ place < length then some place.toNat else none

/-- The place of a bound of a slice, within the list. -/
def boundPlace (bound : Option Int) (length default : Nat) : Nat :=
  match bound with
  | none => default
  | some position =>
      let place := if position < 0 then position + length else position
      min place.toNat length

/-- The bounds of a slice as integers. -/
def toBounds (start stop : Option Datum) :
    Except Fault (Option Int × Option Int) := do
  let start ← start.mapM toInt
  let stop ← stop.mapM toInt
  .ok (start, stop)

/-- The part of an array or an object under a key, null if it has none. -/
def part (datum key : Datum) : Except Fault Datum :=
  match datum, key with
  | array _ items, number (.int position) =>
      .ok (((place? position items.length).bind (items[·]?)).getD null)
  | object _ ms, string name => .ok ((Members.get? ms name).getD null)
  | array _ _, _ | object _ _, _ => .error (.noPart datum key)
  | _, _ => .error (.misfit datum iterableName)

/-- The part of an array or a string between two bounds. -/
def slice (datum : Datum) (start stop : Option Datum) :
    Except Fault Datum := do
  match datum with
  | array _ items =>
      let (start, stop) ← toBounds start stop
      .ok (newArray (cut items start stop))
  | string text =>
      let (start, stop) ← toBounds start stop
      .ok (string (String.ofList (cut text.toList start stop)))
  | _ => .error (.misfit datum "rangeable (array or string)")
where
  /-- The items between two bounds. -/
  cut {α : Type} (items : List α) (start stop : Option Int) : List α :=
    let first := boundPlace start items.length 0
    let last := boundPlace stop items.length items.length
    (items.drop first).take (last - first)

/-- The items of an array or the values of an object. -/
def values : Datum → Except Fault (List Datum)
  | array _ items => .ok items
  | object _ ms => .ok (ms.map Prod.snd)
  | other => .error (.misfit other iterableName)

/-! ## Every part of a datum -/

mutual
/-- A datum and every part of it, in document order. -/
def reach (datum : Datum) : List Datum :=
  datum ::
    match datum with
    | array _ items => reachItems items
    | object _ ms => reachMembers ms
    | _ => []

/-- The parts of items. -/
def reachItems : List Datum → List Datum
  | [] => []
  | item :: rest => reach item ++ reachItems rest

/-- The parts of members. -/
def reachMembers : List (String × Datum) → List Datum
  | [] => []
  | (_, value) :: rest => reach value ++ reachMembers rest
end

end Datum

end Longhand.Query
