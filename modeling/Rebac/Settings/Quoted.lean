import Rebac.Number.Numeral
import Rebac.Text.Blank

/-!
# Quoted scalars

A single-quoted scalar writes its quote twice and knows no other escape.  In a
double-quoted scalar a backslash starts an escape: a letter for a character, or
the hexadecimal code of a character in two, four or eight digits.  Both may run
over several lines, which are folded into one.
-/

namespace Rebac.SettingsFile

/-- The characters that one letter after a backslash stands for. -/
def letterEscape? : Char → Option Char
  | '0' => some '\x00'
  | 'a' => some '\x07'
  | 'b' => some '\x08'
  | 't' => some '\t'
  | '\t' => some '\t'
  | 'n' => some '\n'
  | 'v' => some '\x0b'
  | 'f' => some '\x0c'
  | 'r' => some '\r'
  | 'e' => some '\x1b'
  | ' ' => some ' '
  | '"' => some '"'
  | '/' => some '/'
  | '\\' => some '\\'
  | 'N' => some '\u0085'
  | '_' => some '\u00a0'
  | 'L' => some '\u2028'
  | 'P' => some '\u2029'
  | _ => none

/-- The number of hexadecimal digits after a letter. -/
def codeLength? : Char → Option Nat
  | 'x' => some 2
  | 'u' => some 4
  | 'U' => some 8
  | _ => none

/-- The character of a hexadecimal code, unless the code is a surrogate or
beyond the last character. -/
def characterOfCode? (digits : List Char) : Option Char := do
  let code ← Numeral.natural? 16 digits
  if code.isValidChar then some (Char.ofNat code) else none

/-- Read what follows the backslash of an escape. -/
def escape? : List Char → Option (Char × List Char)
  | [] => none
  | letter :: rest =>
      match codeLength? letter with
      | none => (letterEscape? letter).map fun character => (character, rest)
      | some count =>
          if rest.length < count then none
          else
            (characterOfCode? (rest.take count)).map fun character =>
              (character, rest.drop count)

theorem length_lt_of_escape? {text rest : List Char} {character : Char}
    (read : escape? text = some (character, rest)) : rest.length < text.length := by
  cases text with
  | nil => simp [escape?] at read
  | cons letter after =>
      simp only [escape?] at read
      split at read
      · simp only [Option.map_eq_some_iff, Prod.mk.injEq] at read
        obtain ⟨_, _, _, rfl⟩ := read
        simp
      · split at read
        · contradiction
        · simp only [Option.map_eq_some_iff, Prod.mk.injEq] at read
          obtain ⟨_, _, _, rfl⟩ := read
          simp only [List.length_drop, List.length_cons]
          omega

/-- What line breaks mean inside a scalar: a single one is a space, and of
several all but the first stay. -/
def foldBreaks : Nat → List Char
  | 1 => [' ']
  | breaks => List.replicate (breaks - 1) '\n'

def isSpacing (character : Char) : Bool :=
  Text.isGap character || character = '\n'

/-- What a run of blanks and line breaks means.  Blanks next to a line break are
dropped. -/
def foldSpacing (run : List Char) : List Char :=
  if run.contains '\n' then foldBreaks (run.count '\n') else run

/-- Read the rest of a double-quoted scalar.  An escaped line break means nothing,
and only further ones after it are kept. -/
def doubleQuoted? : List Char → Option (List Char × List Char)
  | [] => none
  | '"' :: rest => some ([], rest)
  | '\\' :: '\n' :: rest =>
      let breaks := (rest.takeWhile isSpacing).count '\n'
      (doubleQuoted? (rest.dropWhile isSpacing)).map fun (value, rest) =>
        (List.replicate breaks '\n' ++ value, rest)
  | '\\' :: rest =>
      match _read : escape? rest with
      | none => none
      | some (character, rest) =>
          (doubleQuoted? rest).map fun (value, rest) => (character :: value, rest)
  | character :: rest =>
      if isSpacing character then
        (doubleQuoted? (rest.dropWhile isSpacing)).map fun (value, after) =>
          (foldSpacing (character :: rest.takeWhile isSpacing) ++ value, after)
      else
        (doubleQuoted? rest).map fun (value, rest) => (character :: value, rest)
termination_by text => text.length
decreasing_by
  · have := Text.length_dropWhile_le isSpacing rest
    simp only [List.length_cons]
    omega
  · have := length_lt_of_escape? _read
    simp only [List.length_cons]
    omega
  · have := Text.length_dropWhile_le isSpacing rest
    simp only [List.length_cons]
    omega
  · simp

/-- Read the rest of a single-quoted scalar. -/
def singleQuoted? : List Char → Option (List Char × List Char)
  | [] => none
  | '\'' :: '\'' :: rest =>
      (singleQuoted? rest).map fun (value, rest) => ('\'' :: value, rest)
  | '\'' :: rest => some ([], rest)
  | character :: rest =>
      if isSpacing character then
        (singleQuoted? (rest.dropWhile isSpacing)).map fun (value, after) =>
          (foldSpacing (character :: rest.takeWhile isSpacing) ++ value, after)
      else
        (singleQuoted? rest).map fun (value, rest) => (character :: value, rest)
termination_by text => text.length
decreasing_by
  · simp only [List.length_cons]
    omega
  · have := Text.length_dropWhile_le isSpacing rest
    simp only [List.length_cons]
    omega
  · simp

/-- Read a quoted scalar; what follows it is returned with it. -/
def quoted? : List Char → Option (List Char × List Char)
  | '"' :: rest => doubleQuoted? rest
  | '\'' :: rest => singleQuoted? rest
  | _ => none

end Rebac.SettingsFile
