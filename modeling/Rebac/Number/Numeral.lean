/-!
# Numerals

A text spells a number only as a whole: by digits in a base, possibly after a
sign, or as a decimal with a point and an exponent.  Bases go up to sixteen,
letters of either case being the digits from ten.
-/

namespace Rebac.Numeral

def digitValue? (character : Char) : Option Nat :=
  if '0' ≤ character && character ≤ '9' then
    some (character.toNat - '0'.toNat)
  else if 'a' ≤ character && character ≤ 'f' then
    some (character.toNat - 'a'.toNat + 10)
  else if 'A' ≤ character && character ≤ 'F' then
    some (character.toNat - 'A'.toNat + 10)
  else none

/-- The value of a digit in a base. -/
def digit? (base : Nat) (character : Char) : Option Nat :=
  (digitValue? character).filter fun value => value < base

/-- The number that a nonempty row of digits spells. -/
def natural? (base : Nat) (text : List Char) : Option Nat :=
  if text.isEmpty then none
  else
    text.foldlM (fun value character =>
      (digit? base character).map fun digit => value * base + digit) 0

/-- Split an optional sign from a text; the first part says whether the sign is
a minus. -/
def splitSign : List Char → Bool × List Char
  | '-' :: rest => (true, rest)
  | '+' :: rest => (false, rest)
  | text => (false, text)

theorem length_splitSign_le (text : List Char) :
    (splitSign text).2.length ≤ text.length := by
  unfold splitSign
  split <;> simp

/-- The integer that a row of digits spells after an optional sign. -/
def integer? (base : Nat) (text : List Char) : Option Int :=
  let (isNegative, digits) := splitSign text
  (natural? base digits).map fun magnitude =>
    if isNegative then -(magnitude : Int) else magnitude

/-- The power of ten at the end of a decimal, which may be left out. -/
def exponent? : List Char → Option Int
  | [] => some 0
  | mark :: rest => if mark = 'e' || mark = 'E' then integer? 10 rest else none

/-- The digits of a decimal without a sign and the power of ten of the last of
them.  There may be no digits on one side of the point. -/
def decimal? (text : List Char) : Option (Nat × Int) := do
  let whole := text.takeWhile Char.isDigit
  let (fraction, rest) :=
    match text.dropWhile Char.isDigit with
    | '.' :: rest => (rest.takeWhile Char.isDigit, rest.dropWhile Char.isDigit)
    | rest => ([], rest)
  let digits ← natural? 10 (whole ++ fraction)
  let exponent ← exponent? rest
  some (digits, exponent - fraction.length)

end Rebac.Numeral
