import Rebac.Number.Binary64

/-!
# Shortest decimals of binary64 magnitudes

Among the decimals that round to a magnitude, those with the fewest digits are
candidates and the nearest of them is chosen.  How the digits are laid out is
a matter of the format that writes them.
-/

namespace Rebac

/-- `digits` is the numeral of a decimal number and `exponent` the power of ten
of its first digit. -/
structure Decimal where
  digits : List Char
  exponent : Int
  deriving Repr, DecidableEq

namespace Binary64

/-- Whether a ratio lies where every number rounds to the given magnitude.
The ends belong to it if the mantissa is even. -/
def isRounding (value : Binary64) (numerator denominator : Nat) : Bool :=
  let quarters := fun (mantissa : Nat) =>
    Binary64.toRatio { mantissa, exponent := value.exponent - 2 }
  let gapBelow :=
    if value.mantissa = Nat.pow 2 52 && leastExponent < value.exponent then 1 else 2
  let (lowNumerator, lowDenominator) := quarters (4 * value.mantissa - gapBelow)
  let (highNumerator, highDenominator) := quarters (4 * value.mantissa + 2)
  let low := lowNumerator * denominator
  let high := highNumerator * denominator
  let belowHigh := numerator * highDenominator
  let aboveLow := numerator * lowDenominator
  if value.mantissa % 2 = 0 then low ≤ aboveLow && belowHigh ≤ high
  else low < aboveLow && belowHigh < high

/-- The power of ten of the first digit of a positive ratio, found by counting
down from a bound. -/
def leadingPower (numerator denominator : Nat) : Nat → Int → Int
  | 0, power => power
  | steps + 1, power =>
      let reached :=
        if 0 ≤ power then denominator * Nat.pow 10 power.toNat ≤ numerator
        else denominator ≤ numerator * Nat.pow 10 (-power).toNat
      if reached then power
      else leadingPower numerator denominator steps (power - 1)

/-- The candidate with a number of digits, if one of the two decimals next to
the magnitude rounds to it. -/
def candidate? (value : Binary64) (power : Int) (count : Nat) : Option (Nat × Int) :=
  let (numerator, denominator) := value.toRatio
  let unit : Int := power - count + 1
  let up := Nat.pow 10 unit.toNat
  let down := Nat.pow 10 (-unit).toNat
  let scaled := numerator * down
  let step := denominator * up
  let below := scaled / step
  let above := below + 1
  let fits := fun (digits : Nat) => value.isRounding (digits * up) down
  let distanceBelow := scaled - below * step
  let distanceAbove := above * step - scaled
  if fits below && (!fits above || distanceBelow < distanceAbove ||
      (distanceBelow = distanceAbove && below % 2 = 0)) then some (below, unit)
  else if fits above then some (above, unit)
  else none

/-- The shortest decimal that rounds to a positive magnitude. -/
def shortest (value : Binary64) : Decimal :=
  let (numerator, denominator) := value.toRatio
  let power := leadingPower numerator denominator 640 309
  let counts := List.range' 1 17
  match counts.findSome? (value.candidate? power) with
  | some (digits, unit) =>
      let numeral := Nat.toDigits 10 digits
      { digits := numeral, exponent := unit + numeral.length - 1 }
  | none => { digits := ['0'], exponent := 0 }

end Binary64

/-- Drop the zeros at the end of a numeral, keeping its first digit. -/
def dropTrailingZeros : List Char → List Char
  | [] => []
  | first :: rest => first :: (rest.reverse.dropWhile (· == '0')).reverse

/-- A decimal in positional notation, without a mark if it is an integer. -/
def Decimal.positional (decimal : Decimal) : List Char :=
  let digits := dropTrailingZeros decimal.digits
  if decimal.exponent < 0 then
    "0.".toList ++ List.replicate ((-decimal.exponent).toNat - 1) '0' ++ digits
  else
    let whole := decimal.exponent.toNat + 1
    if digits.length ≤ whole then
      digits ++ List.replicate (whole - digits.length) '0'
    else digits.take whole ++ '.' :: digits.drop whole

end Rebac
