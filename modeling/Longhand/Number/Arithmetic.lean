import Longhand.Number.Double

/-!
# Arithmetic on doubles

Sums, products and quotients are the rounded ones of the interchange format, with
its infinities and NaNs.  The remainder is exact and takes the sign of the
dividend.  In the order of this module a NaN is less than everything, itself
included, and the two zeros are equal.
-/

namespace Longhand.Double

/-- The hardware number of the same bits. -/
def toFloat (d : Double) : Float :=
  Float.ofBits d.bits

/-- The bits of a hardware number. -/
def ofFloat (x : Float) : Double :=
  ⟨x.toBits⟩

instance : Add Double := ⟨fun a b => ofFloat (a.toFloat + b.toFloat)⟩
instance : Sub Double := ⟨fun a b => ofFloat (a.toFloat - b.toFloat)⟩
instance : Mul Double := ⟨fun a b => ofFloat (a.toFloat * b.toFloat)⟩
instance : Div Double := ⟨fun a b => ofFloat (a.toFloat / b.toFloat)⟩

/-- Not a number. -/
def isNaN (d : Double) : Bool :=
  d.exponentBits = 2047 && d.fractionBits ≠ 0

/-- A value that is not a number. -/
def nan : Double := ⟨0x7ff8000000000000⟩

/-- The double without its sign. -/
def magnitude (d : Double) : Double :=
  if d.isNegative then d.negate else d

/-- Give a double the sign of another. -/
def withSignOf (d other : Double) : Double :=
  if other.isNegative then d.magnitude.negate else d.magnitude

/-- The double nearest to an integer. -/
def ofInt (i : Int) : Double :=
  if i < 0 then (ofNat i.natAbs).negate else ofNat i.natAbs

/-- What is left of the dividend when the divisor has been taken from it as
often as it fits; there is no such number for an infinite dividend or a divisor
of zero. -/
def remainder (a b : Double) : Double :=
  if a.isNaN || b.isNaN || !a.isFinite || (b.isFinite && b.significand = 0) then
    nan
  else if !b.isFinite then a
  else
    let exponent := min a.exponent b.exponent
    let dividend := a.significand * Nat.pow 2 (a.exponent - exponent).toNat
    let divisor := b.significand * Nat.pow 2 (b.exponent - exponent).toNat
    withSignOf
      (ofRatio (dividend % divisor * Nat.pow 2 exponent.toNat)
        (Nat.pow 2 (-exponent).toNat))
      a

instance : Mod Double := ⟨remainder⟩

/-- Order doubles by their values. -/
def order (a b : Double) : Ordering :=
  if a.isNaN then .lt
  else if b.isNaN then .gt
  else if a.toFloat < b.toFloat then .lt
  else if b.toFloat < a.toFloat then .gt
  else .eq

/-- The double nearest to `significand * 10 ^ exponent`.  Decimals that are far
beyond every double need not be computed. -/
def ofDecimal (significand : Nat) (exponent : Int) : Double :=
  let place := ((Nat.toDigits 10 significand).length : Int) + exponent
  if significand = 0 || place < -400 then zero
  else if 400 < place then infinity
  else ofRatio (significand * Nat.pow 10 exponent.toNat) (Nat.pow 10 (-exponent).toNat)

end Longhand.Double
