import Longhand.Number.Double

/-!
# The shortest decimal that reads back

Every finite double is nearest to a whole interval of reals.  Its shortest
decimal is the one with the fewest digits in that interval and, of those, the
nearest to the double.  The search tries one grid of decimals after another,
from one digit to seventeen, and looks only at the two neighbours of the double
on each grid: if any point of a grid lies in the interval, a neighbour does.
-/

namespace Longhand

/-- The number `digits * 10 ^ exponent`. -/
structure Decimal where
  digits : Nat
  exponent : Int
  deriving DecidableEq, Inhabited, Repr

namespace Decimal

/-- The same number without trailing zeros in its digits.  The first argument
bounds the zeros that are removed. -/
def trim : Nat → Decimal → Decimal
  | 0, d => d
  | rounds + 1, d =>
      if d.digits % 10 = 0 ∧ d.digits ≠ 0 then
        trim rounds ⟨d.digits / 10, d.exponent + 1⟩
      else d

end Decimal

/-- The reals that round to one positive double, over one denominator: the ends
`low` and `high`, the double itself, and whether the ends belong to it. -/
structure RoundingInterval where
  low : Nat
  value : Nat
  high : Nat
  denominator : Nat
  closed : Bool
  deriving DecidableEq, Repr

namespace RoundingInterval

/-- The interval of a double: half a unit on each side, but only a quarter
below a power of two, where the doubles beneath are twice as dense. -/
def ofDouble (d : Double) : RoundingInterval :=
  let quarters := d.exponent - 2
  let scale := Nat.pow 2 quarters.toNat
  let below :=
    if d.fractionBits = 0 ∧ 1 < d.exponentBits then 1 else 2
  { low := (4 * d.significand - below) * scale
    value := 4 * d.significand * scale
    high := (4 * d.significand + 2) * scale
    denominator := Nat.pow 2 (-quarters).toNat
    closed := d.significand % 2 = 0 }

/-- A ratio over the interval's denominator lies in the interval. -/
def holds (interval : RoundingInterval) (numerator scale : Nat) : Bool :=
  if interval.closed then
    interval.low * scale ≤ numerator && numerator ≤ interval.high * scale
  else
    interval.low * scale < numerator && numerator < interval.high * scale

/-- The decimal exponent of the leading digit of the interval's value. -/
def leadingExponent (interval : RoundingInterval) : Int :=
  let whole := interval.value / interval.denominator
  if 0 < whole then (Nat.toDigits 10 whole).length - 1
  else
    let places := (Nat.toDigits 10 (interval.denominator / interval.value)).length
    if interval.denominator ≤ interval.value * Nat.pow 10 (places - 1) then
      1 - (places : Int)
    else -(places : Int)

/-- The better neighbour of the value on the grid of multiples of a power of
ten, if one of the two lies in the interval. -/
def onGrid? (interval : RoundingInterval) (exponent : Int) : Option Decimal :=
  let finer := Nat.pow 10 (-exponent).toNat
  let unit := interval.denominator * Nat.pow 10 exponent.toNat
  let value := interval.value * finer
  let below := value / unit
  let fitsBelow := interval.holds (below * unit) finer
  let fitsAbove := interval.holds ((below + 1) * unit) finer
  let nearerAbove :=
    2 * value > (2 * below + 1) * unit ||
      (2 * value = (2 * below + 1) * unit && below % 2 = 1)
  if fitsBelow && fitsAbove then
    some ⟨if nearerAbove then below + 1 else below, exponent⟩
  else if fitsBelow then some ⟨below, exponent⟩
  else if fitsAbove then some ⟨below + 1, exponent⟩
  else none

/-- Try grids of more and more digits; seventeen always suffice. -/
def search (interval : RoundingInterval) : Nat → Int → Decimal
  | 0, exponent => ⟨interval.value / interval.denominator, exponent⟩
  | grids + 1, exponent =>
      match interval.onGrid? exponent with
      | some decimal => decimal
      | none => interval.search grids (exponent - 1)

end RoundingInterval

/-- The shortest decimal that reads back as this finite double, its sign left
out. -/
def Double.shortest (d : Double) : Decimal :=
  if d.significand = 0 then ⟨0, 0⟩
  else
    let interval := RoundingInterval.ofDouble d
    (interval.search 17 interval.leadingExponent).trim 17

end Longhand
