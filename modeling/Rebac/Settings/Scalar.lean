import Rebac.Number.Extended

/-!
# Scalars of settings

A source of settings gives a scalar to a field, and the field converts it: a
text field takes numbers as they are written, a switch takes words, and a size
takes whatever comes near a natural number.  Unquoted scalars of a file are
first read as null, switches and numbers.
-/

namespace Rebac

/-- Values that a settings source can give to a field. -/
inductive Scalar where
  | null
  | switch (value : Bool)
  | integer (value : Int)
  | real (value : Extended)
  | text (value : String)
  deriving Repr, DecidableEq

namespace Scalar

def toText? : Scalar → Option String
  | .null => none
  | .switch value => some (if value then "true" else "false")
  | .integer value => some (toString value)
  | .real value => some (String.ofList value.toText)
  | .text value => some value

/-- The words for yes and no, in any case. -/
def switchOfText? (text : String) : Option Bool :=
  let lowered := String.ofList (text.toList.map Char.toLower)
  if ["true", "on", "yes"].contains lowered then some true
  else if ["false", "off", "no"].contains lowered then some false
  else none

def toSwitch? : Scalar → Option Bool
  | .null => none
  | .switch value => some value
  | .integer value => some (value != 0)
  | .real value => some (!value.isZero)
  | .text value =>
      if value = "1" then some true
      else if value = "0" then some false
      else switchOfText? value

/-- The largest size that a field can hold. -/
def greatestSize : Nat := Nat.pow 2 64 - 1

/-- The size that a text spells, by a word or by digits after an optional plus
sign. -/
def sizeOfText? (text : String) : Option Nat :=
  match switchOfText? text with
  | some flag => some (if flag then 1 else 0)
  | none =>
      let digits := (List.isPrefixOf? ['+'] text.toList).getD text.toList
      (Numeral.natural? 10 digits).filter fun size => size ≤ greatestSize

def toSize? : Scalar → Option Nat
  | .null => none
  | .switch value => some (if value then 1 else 0)
  | .integer value => if 0 ≤ value then some value.toNat else none
  | .real value => some (value.toNat greatestSize)
  | .text value => sizeOfText? value

/-- The bound of the magnitude of integers. -/
def integerBound : Nat := Nat.pow 2 63

/-- The integer that a text spells in a base, if it fits in 64 bits. -/
def integerOfText? (base : Nat) (text : List Char) : Option Int :=
  (Numeral.integer? base text).filter fun value =>
    -(integerBound : Int) ≤ value && value < integerBound

/-- Integers after the mark of their base or after a plus sign.  The digits may
have a sign of their own. -/
def markedInteger? : List Char → Option Int
  | '0' :: 'x' :: digits => integerOfText? 16 digits
  | '0' :: 'o' :: digits => integerOfText? 8 digits
  | '+' :: digits => integerOfText? 10 digits
  | _ => none

/-- Spellings of infinity and of no number that are recognised as numbers and
then have no value. -/
def dottedWords : List String :=
  [".inf", ".Inf", ".INF", "+.inf", "+.Inf", "+.INF", "-.inf", "-.Inf", "-.INF",
    ".nan", ".NAN"]

/-- What an unquoted scalar means; there is none for a number without a
value. -/
def ofPlain? (text : List Char) : Option Scalar :=
  match markedInteger? text with
  | some value => some (.integer value)
  | none =>
      if text = ['~'] || text = "null".toList then some .null
      else if text = "true".toList then some (.switch true)
      else if text = "false".toList then some (.switch false)
      else if dottedWords.contains (String.ofList text) then none
      else
        match integerOfText? 10 text, Extended.ofText? text with
        | some value, _ => some (.integer value)
        | none, some value => some (.real value)
        | none, none => some (.text (String.ofList text))

end Scalar

end Rebac
