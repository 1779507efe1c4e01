/-!
# Finite binary64 magnitudes

A magnitude is an integer of at most 53 bits times a power of two.  Ratios are
rounded to the nearest magnitude, ties to the even one, in exact integer
arithmetic; a ratio beyond the largest magnitude has no rounding.
-/

namespace Rebac

structure Binary64 where
  mantissa : Nat
  exponent : Int
  deriving Repr, DecidableEq, Inhabited

namespace Binary64

def leastExponent : Int := -1074

def greatestExponent : Int := 971

def zero : Binary64 :=
  { mantissa := 0, exponent := leastExponent }

def isZero (value : Binary64) : Bool :=
  value.mantissa == 0

/-- Divide and round to the nearest integer, ties to the even one. -/
def divideToNearest (numerator denominator : Nat) : Nat :=
  let quotient := numerator / denominator
  let twice := 2 * (numerator % denominator)
  if denominator < twice || (twice = denominator && quotient % 2 = 1) then
    quotient + 1
  else quotient

/-- A ratio in units of a power of two, as numerator and denominator. -/
def inUnits (numerator denominator : Nat) (exponent : Int) : Nat × Nat :=
  if 0 ≤ exponent then (numerator, denominator <<< exponent.toNat)
  else (numerator <<< (-exponent).toNat, denominator)

/-- The exponent of the leading binary digit of a positive ratio. -/
def leadingExponent (numerator denominator : Nat) : Int :=
  let guess : Int := (numerator.log2 : Int) - (denominator.log2 : Int)
  let (scaled, unit) := inUnits numerator denominator guess
  if unit ≤ scaled then guess else guess - 1

/-- The magnitude nearest to a ratio. -/
def nearest (numerator denominator : Nat) : Option Binary64 :=
  if numerator = 0 then some zero
  else
    let exponent :=
      max leastExponent (leadingExponent numerator denominator - 52)
    let (scaled, unit) := inUnits numerator denominator exponent
    let mantissa := divideToNearest scaled unit
    let (mantissa, exponent) :=
      if mantissa = Nat.pow 2 53 then (Nat.pow 2 52, exponent + 1)
      else (mantissa, exponent)
    if exponent ≤ greatestExponent then some { mantissa, exponent } else none

/-- The exact value, as numerator and denominator. -/
def toRatio (value : Binary64) : Nat × Nat :=
  if 0 ≤ value.exponent then (value.mantissa <<< value.exponent.toNat, 1)
  else (value.mantissa, 1 <<< (-value.exponent).toNat)

def multiply (left right : Binary64) : Option Binary64 :=
  let (leftNumerator, leftDenominator) := left.toRatio
  let (rightNumerator, rightDenominator) := right.toRatio
  nearest (leftNumerator * rightNumerator) (leftDenominator * rightDenominator)

def divide (left right : Binary64) : Option Binary64 :=
  let (leftNumerator, leftDenominator) := left.toRatio
  let (rightNumerator, rightDenominator) := right.toRatio
  nearest (leftNumerator * rightDenominator) (leftDenominator * rightNumerator)

/-- The magnitude nearest to a decimal number. -/
def ofDecimal (digits : Nat) (exponent : Int) : Option Binary64 :=
  if 0 ≤ exponent then nearest (digits * Nat.pow 10 exponent.toNat) 1
  else nearest digits (Nat.pow 10 (-exponent).toNat)

end Binary64

end Rebac
