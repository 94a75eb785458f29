/-!
# Doubles in exact arithmetic

A double is stored as its sixty-four bits.  A finite one stands for
`significand * 2 ^ exponent`, up to its sign, and a ratio of natural numbers is
rounded to the nearest double, a tie going to the even significand.  All of it
is arithmetic on natural numbers, so it evaluates inside proofs.
-/

namespace Longhand

/-- A double-precision number in the interchange format: a sign bit, eleven
bits of exponent and fifty-two bits of fraction. -/
structure Double where
  bits : UInt64
  deriving DecidableEq, Inhabited, Repr

namespace Double

/-- The weight of the lowest exponent bit. -/
def fractionRange : Nat := Nat.pow 2 52

/-- The eleven exponent bits. -/
def exponentBits (d : Double) : Nat :=
  d.bits.toNat / fractionRange % Nat.pow 2 11

/-- The fifty-two fraction bits. -/
def fractionBits (d : Double) : Nat :=
  d.bits.toNat % fractionRange

/-- Whether the sign bit is set. -/
def isNegative (d : Double) : Bool :=
  Nat.pow 2 63 ≤ d.bits.toNat

/-- Neither infinite nor a NaN. -/
def isFinite (d : Double) : Bool :=
  d.exponentBits != 2047

/-- The integer that a finite double scales: below the normal range the
fraction alone, otherwise the fraction with its hidden leading bit. -/
def significand (d : Double) : Nat :=
  if d.exponentBits = 0 then d.fractionBits
  else fractionRange + d.fractionBits

/-- The power of two by which a finite double scales its significand. -/
def exponent (d : Double) : Int :=
  if d.exponentBits = 0 then -1074 else (d.exponentBits : Int) - 1075

/-- The double with the other sign. -/
def negate (d : Double) : Double :=
  ⟨d.bits ^^^ 0x8000000000000000⟩

/-- Positive zero. -/
def zero : Double := ⟨0⟩

/-- Positive infinity, the least value that no finite double reaches. -/
def infinity : Double := ⟨0x7ff0000000000000⟩

/-- The quotient rounded to the nearest integer, a tie to the even one. -/
def divideToNearest (numerator denominator : Nat) : Nat :=
  let quotient := numerator / denominator
  let remainder := numerator % denominator
  if denominator < 2 * remainder then quotient + 1
  else if 2 * remainder = denominator then quotient + quotient % 2
  else quotient

/-- A ratio measured in units of a power of two, rounded to the nearest. -/
def roundInUnits (numerator denominator : Nat) (exponent : Int) : Nat :=
  divideToNearest (numerator * Nat.pow 2 (-exponent).toNat)
    (denominator * Nat.pow 2 exponent.toNat)

/-- The exponent at which a ratio has fifty-three binary digits, or the least
exponent there is. -/
def unitExponent (numerator denominator : Nat) : Int :=
  let estimate : Int := (numerator.log2 : Int) - (denominator.log2 : Int) - 53
  let tooFine :=
    2 * fractionRange * (denominator * Nat.pow 2 estimate.toNat) ≤
      numerator * Nat.pow 2 (-estimate).toNat
  max (if tooFine then estimate + 1 else estimate) (-1074)

/-- The double nearest to a ratio, a tie going to the even significand; past
the largest double it is infinity. -/
def ofRatio (numerator denominator : Nat) : Double :=
  if numerator = 0 then zero
  else
    let exponent := unitExponent numerator denominator
    let encoded :=
      (exponent + 1074).toNat * fractionRange +
        roundInUnits numerator denominator exponent
    ⟨UInt64.ofNat (min encoded infinity.bits.toNat)⟩

/-- The double nearest to a natural number. -/
def ofNat (n : Nat) : Double :=
  ofRatio n 1

/-- The rounded product of two finite doubles without their signs. -/
def multiply (a b : Double) : Double :=
  let exponent := a.exponent + b.exponent
  ofRatio (a.significand * b.significand * Nat.pow 2 exponent.toNat)
    (Nat.pow 2 (-exponent).toNat)

/-- The rounded quotient of two finite doubles without their signs; a zero
divisor counts as one. -/
def divide (a b : Double) : Double :=
  let exponent := a.exponent - b.exponent
  ofRatio (a.significand * Nat.pow 2 exponent.toNat)
    (max b.significand 1 * Nat.pow 2 (-exponent).toNat)

/-! ## Powers of ten -/

/-- The largest power of ten that a double reaches. -/
def largestPower : Nat := 308

/-- Divide by a power of ten, at most `largestPower` places at a time, rounding
at each step. -/
def shrink (d : Double) (places : Nat) : Double :=
  if places ≤ largestPower then divide d (ofNat (Nat.pow 10 places))
  else if d = zero then zero
  else shrink (divide d (ofNat (Nat.pow 10 largestPower))) (places - largestPower)
termination_by places
decreasing_by simp only [largestPower] at *; omega

/-- The double that a decimal literal denotes: the significand is rounded first
and then scaled by a power of ten.  There is none when the scaled number is
past the largest double. -/
def ofDecimal? (significand : Nat) (exponent : Int) : Option Double :=
  let rounded := ofNat significand
  if exponent < 0 then some (shrink rounded (-exponent).toNat)
  else if exponent.toNat ≤ largestPower then
    let scaled := multiply rounded (ofNat (Nat.pow 10 exponent.toNat))
    if scaled.isFinite then some scaled else none
  else if rounded = zero then some zero
  else none

end Double

end Longhand
