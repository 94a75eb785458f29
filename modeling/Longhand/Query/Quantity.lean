import Longhand.Json.Printer
import Longhand.Number.Arithmetic

/-!
# Numbers inside a query

A query computes with 64-bit integers and with doubles.  A number that was
written down and is no such integer keeps its text until an operation needs its
value, so a number that is only passed on comes out as it went in.  An integer
result that does not fit wraps around.
-/

namespace Longhand.Query

/-- A number: an integer, a double, or a literal that is kept as written. -/
inductive Quantity where
  | int (value : Int)
  | double (value : Double)
  | literal (text : String)
  deriving Inhabited

namespace Quantity

/-- Whether an integer fits in 64 bits with a sign. -/
def fits (value : Int) : Bool :=
  -Int.pow 2 63 ≤ value && value < Int.pow 2 63

/-- The value of decimal digits. -/
def digitsValue (digits : List Char) : Nat :=
  digits.foldl (fun value c => 10 * value + (c.toNat - '0'.toNat)) 0

/-- The double nearest to a literal without its sign. -/
def unsignedValue (text : List Char) : Double :=
  let whole := text.takeWhile Char.isDigit
  let behind := text.dropWhile Char.isDigit
  let fraction :=
    match behind with
    | '.' :: rest => rest.takeWhile Char.isDigit
    | _ => []
  let power :=
    match text.dropWhile fun c => c != 'e' && c != 'E' with
    | _ :: '-' :: digits => -(digitsValue digits : Int)
    | _ :: '+' :: digits => digitsValue digits
    | _ :: digits => digitsValue digits
    | [] => 0
  Double.ofDecimal (digitsValue (whole ++ fraction))
    (power - (fraction.length : Int))

/-- The double nearest to a literal. -/
def literalValue (text : String) : Double :=
  match text.toList with
  | '-' :: rest => (unsignedValue rest).negate
  | chars => unsignedValue chars

/-- The value of a number as a double. -/
def toDouble : Quantity → Double
  | int value => Double.ofInt value
  | double value => value
  | literal text => literalValue text

/-- The number that arithmetic works on in place of a literal: its double. -/
def computed : Quantity → Quantity
  | literal text => double (literalValue text)
  | other => other

/-- An integer result, taken modulo `2 ^ 64` into the range of 64 bits. -/
def wrap (value : Int) : Quantity :=
  int (value.bmod (Nat.pow 2 64))

/-- A double without a fraction, as an integer or as its digits. -/
def ofWhole (value : Int) : Quantity :=
  if fits value then int value else literal (toString value)

/-- The number that a literal of digits stands for. -/
def ofLiteral (text : String) : Quantity :=
  if !text.isEmpty && text.all Char.isDigit &&
      fits (digitsValue text.toList) then
    int (digitsValue text.toList)
  else literal text

/-- A number of a document. -/
def ofNumber (number : Number) : Quantity :=
  match number with
  | .int value =>
      if fits value then int value else literal (Json.numberText number)
  | .double _ => literal (Json.numberText number)

/-- Positional notation from `0.0001` up to sixteen places before the point; an
exponent carries no plus sign. -/
def layout : Layout := ⟨-4, 16, false⟩

/-- The text of a number; infinities and NaNs have none and are null. -/
def text : Quantity → String
  | int value => toString value
  | double value => if value.isFinite then layout.write value else "null"
  | literal text => text

/-- Order numbers by value. -/
def order : Quantity → Quantity → Ordering
  | int a, int b => compare a b
  | a, b => Double.order a.toDouble b.toDouble

/-- Combine two integers or, if one is not, two doubles. -/
def combine (onInts : Int → Int → Int) (onDoubles : Double → Double → Double) :
    Quantity → Quantity → Quantity
  | int a, int b => wrap (onInts a b)
  | a, b => double (onDoubles a.toDouble b.toDouble)

/-- The sum. -/
def add : Quantity → Quantity → Quantity := combine (· + ·) (· + ·)

/-- The difference. -/
def subtract : Quantity → Quantity → Quantity := combine (· - ·) (· - ·)

/-- The product. -/
def multiply : Quantity → Quantity → Quantity := combine (· * ·) (· * ·)

/-- The quotient, always a double. -/
def divide (a b : Quantity) : Quantity :=
  double (a.toDouble / b.toDouble)

/-- The remainder with the sign of the dividend; integers have none by zero. -/
def remainder? : Quantity → Quantity → Option Quantity
  | int a, int b => if b = 0 then none else some (int (a.tmod b))
  | a, b => some (double (a.toDouble % b.toDouble))

/-- The number with the other sign. -/
def negate : Quantity → Quantity
  | int value => wrap (-value)
  | other => double other.toDouble.negate

/-- The number without its sign. -/
def magnitude : Quantity → Quantity
  | int value => wrap value.natAbs
  | other => double other.toDouble.magnitude

end Quantity

end Longhand.Query
