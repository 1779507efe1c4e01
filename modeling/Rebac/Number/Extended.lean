import Rebac.Number.Numeral
import Rebac.Number.Shortest

/-!
# Extended binary64 numbers

Besides signed finite numbers there are two infinities and a value that is no
number.  Decimals too large for a finite number mean infinity, those too small
mean zero, and either keeps its sign.
-/

namespace Rebac

inductive Extended where
  | finite (isNegative : Bool) (magnitude : Binary64)
  | infinite (isNegative : Bool)
  | notNumber
  deriving Repr, DecidableEq

/-- The integer nearest to a magnitude, halves away from zero. -/
def Binary64.toNearestNat (value : Binary64) : Nat :=
  let (numerator, denominator) := value.toRatio
  (2 * numerator + denominator) / (2 * denominator)

namespace Extended

/-- The number nearest to a decimal.  Positive decimals from ten to the power of
309 are infinite and those below ten to the power of −324 are zero, so that
only powers near this range are computed. -/
def ofDecimal (isNegative : Bool) (digits : Nat) (exponent : Int) : Extended :=
  if digits = 0 || exponent + digits.log2 < -325 then
    .finite isNegative Binary64.zero
  else if 309 ≤ exponent then .infinite isNegative
  else
    match Binary64.ofDecimal digits exponent with
    | some magnitude => .finite isNegative magnitude
    | none => .infinite isNegative

/-- The words for what is not finite, in any case. -/
def ofWord? (isNegative : Bool) (word : List Char) : Option Extended :=
  let lowered := word.map Char.toLower
  if lowered = "inf".toList || lowered = "infinity".toList then
    some (.infinite isNegative)
  else if lowered = "nan".toList then some .notNumber
  else none

/-- The number that a text spells. -/
def ofText? (text : List Char) : Option Extended :=
  let (isNegative, spelling) := Numeral.splitSign text
  match ofWord? isNegative spelling with
  | some value => some value
  | none =>
      (Numeral.decimal? spelling).map fun (digits, exponent) =>
        ofDecimal isNegative digits exponent

def isZero : Extended → Bool
  | .finite _ magnitude => magnitude.isZero
  | .infinite _ => false
  | .notNumber => false

def signed (isNegative : Bool) (text : List Char) : List Char :=
  if isNegative then '-' :: text else text

/-- Finite numbers are written positionally, with the fewest digits that read
back. -/
def toText : Extended → List Char
  | .finite isNegative magnitude =>
      signed isNegative
        (if magnitude.isZero then ['0'] else magnitude.shortest.positional)
  | .infinite isNegative => signed isNegative "inf".toList
  | .notNumber => "NaN".toList

/-- The nearest natural number up to a limit.  What is no number counts as
zero. -/
def toNat (limit : Nat) : Extended → Nat
  | .finite isNegative magnitude =>
      if isNegative then 0 else min magnitude.toNearestNat limit
  | .infinite isNegative => if isNegative then 0 else limit
  | .notNumber => 0

end Extended

end Rebac
