import Longhand.Number.Shortest

/-!
# Laying out a decimal

A decimal is written with a point among its digits while its leading digit is
near enough to the units, and with an exponent otherwise.  Where the two notations
meet, and whether a positive exponent carries its sign, is the layout's choice.
-/

namespace Longhand

/-- The choices of a decimal notation.  The place of a decimal is the number of
its digits before the point, negative when zeros follow the point. -/
structure Layout where
  /-- Places above this one are written with a point. -/
  belowPositional : Int
  /-- Places up to this one are written with a point. -/
  lastPositional : Int
  /-- Whether a positive exponent is written with its sign. -/
  signsExponent : Bool

namespace Layout

/-- A run of zeros. -/
def zeros (count : Nat) : String :=
  String.ofList (List.replicate count '0')

/-- Write digits with a point after the given place. -/
def positional (digits : List Char) (place : Int) : String :=
  if place ≤ 0 then
    "0." ++ zeros (-place).toNat ++ String.ofList digits
  else if place.toNat < digits.length then
    String.ofList (digits.take place.toNat) ++ "." ++
      String.ofList (digits.drop place.toNat)
  else
    String.ofList digits ++ zeros (place.toNat - digits.length) ++ ".0"

/-- Write digits with one of them before the point and an exponent behind. -/
def scientific (layout : Layout) (digits : List Char) (place : Int) : String :=
  let fraction :=
    match digits.drop 1 with
    | [] => ""
    | rest => "." ++ String.ofList rest
  let sign := if layout.signsExponent && 0 < place then "+" else ""
  String.ofList (digits.take 1) ++ fraction ++ "e" ++ sign ++
    toString (place - 1)

/-- Write a decimal that is not negative. -/
def writeDecimal (layout : Layout) (decimal : Decimal) : String :=
  let digits := Nat.toDigits 10 decimal.digits
  let place := (digits.length : Int) + decimal.exponent
  if decimal.digits = 0 then "0.0"
  else if layout.belowPositional < place ∧ place ≤ layout.lastPositional then
    positional digits place
  else layout.scientific digits place

/-- Write a finite double by its shortest decimal. -/
def write (layout : Layout) (d : Double) : String :=
  (if d.isNegative then "-" else "") ++ layout.writeDecimal d.shortest

end Layout

end Longhand
