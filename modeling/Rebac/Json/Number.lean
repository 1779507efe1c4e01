import Rebac.Json
import Rebac.Json.Error
import Rebac.Number.Numeral
import Rebac.Number.Shortest

/-!
# Numbers of JSON texts

An integer is kept exactly if its magnitude fits in 64 bits (63 for negative
ones).  Every other number becomes binary64 in two rounded steps: the digits
that fit in 64 bits make up an integer, which is then scaled by a power of
ten.  Later digits count for their position only.
-/

namespace Rebac.Json

def wordBound : Nat := Nat.pow 2 64

def digitValue (character : Char) : Nat :=
  character.toNat - '0'.toNat

/-- Collect digits into an integer for as long as it fits in 64 bits.  Returns
the integer, the number of digits taken and the remaining text. -/
def gatherDigits (value count : Nat) : List Char → Nat × Nat × List Char
  | [] => (value, count, [])
  | character :: rest =>
      if character.isDigit then
        let next := value * 10 + digitValue character
        if next < wordBound then gatherDigits next (count + 1) rest
        else (value, count, character :: rest)
      else (value, count, character :: rest)

def startsWithDigit : List Char → Bool
  | character :: _ => character.isDigit
  | [] => false

/-- The largest power of ten by which one step scales. -/
def greatestPower : Nat := 308

/-- Scale a magnitude by a power of ten, one step at a time. -/
def scale (value : Binary64) (power : Int) : Option Binary64 :=
  if power.natAbs ≤ greatestPower then
    (Binary64.ofDecimal 1 power.natAbs).bind fun unit =>
      if 0 ≤ power then value.multiply unit else value.divide unit
  else if value.isZero then some value
  else if 0 ≤ power then none
  else
    ((Binary64.ofDecimal 1 greatestPower).bind value.divide).bind fun scaled =>
      scale scaled (power + greatestPower)
termination_by power.natAbs
decreasing_by
  simp only [greatestPower] at *
  omega

/-- The number that was read, or the fault that it is too large. -/
def finishReal (negative : Bool) (digits : Nat) (power : Int) (rest : List Char) :
    Except Fault (JsonNumber × List Char) :=
  match (Binary64.nearest digits 1).bind (scale · power) with
  | some magnitude => .ok (.real negative magnitude, rest)
  | none => .error (Fault.after .numberOutOfRange rest 0)

/-- The largest exponent that a text may spell. -/
def exponentBound : Nat := Nat.pow 2 31

/-- Read the digits of an exponent after the first of them. -/
def readExponentDigits (negative : Bool) (digits : Nat) (power : Int)
    (downwards : Bool) (exponent : Nat) :
    List Char → Except Fault (JsonNumber × List Char)
  | character :: rest =>
      if character.isDigit then
        let next := exponent * 10 + digitValue character
        if next < exponentBound then
          readExponentDigits negative digits power downwards next rest
        else if digits ≠ 0 && !downwards then
          .error (Fault.after .numberOutOfRange rest 0)
        else .ok (.real negative Binary64.zero, rest.dropWhile Char.isDigit)
      else finishExponent negative digits power downwards exponent (character :: rest)
  | [] => finishExponent negative digits power downwards exponent []
where
  finishExponent (negative : Bool) (digits : Nat) (power : Int)
      (downwards : Bool) (exponent : Nat) (rest : List Char) :
      Except Fault (JsonNumber × List Char) :=
    finishReal negative digits
      (if downwards then power - exponent else power + exponent) rest

/-- Read what follows the letter of an exponent. -/
def readExponent (negative : Bool) (digits : Nat) (power : Int)
    (text : List Char) : Except Fault (JsonNumber × List Char) :=
  let (downwards, text) := Numeral.splitSign text
  match text with
  | [] => .error (Fault.at .endInValue [])
  | first :: rest =>
      if first.isDigit then
        readExponentDigits negative digits power downwards (digitValue first) rest
      else .error (Fault.after .invalidNumber (first :: rest) 1)

/-- Read an exponent, if one follows. -/
def readScale (negative : Bool) (digits : Nat) (power : Int) :
    List Char → Except Fault (JsonNumber × List Char)
  | 'e' :: rest => readExponent negative digits power rest
  | 'E' :: rest => readExponent negative digits power rest
  | rest => finishReal negative digits power rest

/-- Read what follows a decimal point. -/
def readFraction (negative : Bool) (digits : Nat) (power : Int)
    (text : List Char) : Except Fault (JsonNumber × List Char) :=
  let (digits, count, rest) := gatherDigits digits 0 text
  if startsWithDigit rest then
    readScale negative digits (power - count) (rest.dropWhile Char.isDigit)
  else if count = 0 then
    match rest with
    | [] => .error (Fault.at .endInValue [])
    | _ => .error (Fault.at .invalidNumber rest)
  else readScale negative digits (power - count) rest

/-- The number of an integer that fits in 64 bits. -/
def ofInteger (negative : Bool) (value : Nat) : JsonNumber :=
  if !negative then .natural value
  else if value ≠ 0 && value ≤ Nat.pow 2 63 then .negative value
  else .real true ((Binary64.nearest value 1).getD Binary64.zero)

/-- Read what follows the integer part of a number. -/
def afterInteger (negative : Bool) (digits : Nat) :
    List Char → Except Fault (JsonNumber × List Char)
  | '.' :: rest => readFraction negative digits 0 rest
  | 'e' :: rest => readExponent negative digits 0 rest
  | 'E' :: rest => readExponent negative digits 0 rest
  | rest => .ok (ofInteger negative digits, rest)

/-- Read the rest of an integer part that does not fit in 64 bits. -/
def afterLongInteger (negative : Bool) (digits : Nat) (text : List Char) :
    Except Fault (JsonNumber × List Char) :=
  let skipped := (text.takeWhile Char.isDigit).length
  match text.dropWhile Char.isDigit with
  | '.' :: rest => readFraction negative digits skipped rest
  | rest => readScale negative digits skipped rest

/-- Read a number without its sign. -/
def readMagnitude (negative : Bool) :
    List Char → Except Fault (JsonNumber × List Char)
  | [] => .error (Fault.at .endInValue [])
  | '0' :: rest =>
      if startsWithDigit rest then .error (Fault.at .invalidNumber rest)
      else afterInteger negative 0 rest
  | first :: rest =>
      if first.isDigit then
        let (digits, _, rest) := gatherDigits (digitValue first) 1 rest
        if startsWithDigit rest then afterLongInteger negative digits rest
        else afterInteger negative digits rest
      else .error (Fault.after .invalidNumber (first :: rest) 1)

/-- Read a number. -/
def readNumber : List Char → Except Fault (JsonNumber × List Char)
  | '-' :: rest => readMagnitude true rest
  | text => readMagnitude false text

/-- Reals always show a decimal point or an exponent; numbers from `1e-5` up to
but not including `1e16` are written positionally. -/
def realText (magnitude : Binary64) : List Char :=
  if magnitude.isZero then "0.0".toList
  else
    let decimal := magnitude.shortest
    let digits := dropTrailingZeros decimal.digits
    if -5 ≤ decimal.exponent && decimal.exponent ≤ 15 then
      let written := decimal.positional
      if written.contains '.' then written else written ++ ".0".toList
    else
      let fraction :=
        match digits with
        | [] => []
        | [single] => [single]
        | first :: rest => first :: '.' :: rest
      let sign := if decimal.exponent < 0 then '-' else '+'
      fraction ++ 'e' :: sign :: Nat.toDigits 10 decimal.exponent.natAbs

def numberText : JsonNumber → List Char
  | .natural value => Nat.toDigits 10 value
  | .negative magnitude => '-' :: Nat.toDigits 10 magnitude
  | .real negative magnitude =>
      if negative then '-' :: realText magnitude else realText magnitude

end Rebac.Json
