import Rebac.Json.Number

/-!
# Writing JSON text

The compact form has no blanks.  The pretty form puts every item and member on
a line of its own, indented by two blanks per level, and keeps empty lists and
objects on one line.
-/

namespace Rebac.Json

def hexCharacter (value : Nat) : Char :=
  if value < 10 then Char.ofNat ('0'.toNat + value)
  else Char.ofNat ('a'.toNat + (value - 10))

/-- Only quotes, backslashes and control characters are escaped. -/
def escape (character : Char) : List Char :=
  match character with
  | '"' => ['\\', '"']
  | '\\' => ['\\', '\\']
  | '\x08' => ['\\', 'b']
  | '\x0c' => ['\\', 'f']
  | '\n' => ['\\', 'n']
  | '\r' => ['\\', 'r']
  | '\t' => ['\\', 't']
  | other =>
      if other.toNat < 0x20 then
        "\\u00".toList ++
          [hexCharacter (other.toNat / 16), hexCharacter (other.toNat % 16)]
      else [other]

def quote (text : List Char) : List Char :=
  '"' :: text.flatMap escape ++ ['"']

/-- A value without lists or objects. -/
def scalarText : Json → List Char
  | .bool true => "true".toList
  | .bool false => "false".toList
  | .number value => numberText value
  | .string value => quote value.toList
  | _ => "null".toList

mutual

def toCompact : Json → List Char
  | .array items => '[' :: [','].intercalate (compactItems items) ++ [']']
  | .object members =>
      '\x7b' :: [','].intercalate (compactMembers members) ++ ['\x7d']
  | value => value.scalarText

/-- List counterpart of `Json.toCompact`. -/
def compactItems : List Json → List (List Char)
  | [] => []
  | item :: items => item.toCompact :: compactItems items

/-- Member counterpart of `Json.toCompact`. -/
def compactMembers : List (String × Json) → List (List Char)
  | [] => []
  | (key, value) :: members =>
      (quote key.toList ++ ':' :: value.toCompact) :: compactMembers members

end

/-- A line break and the indentation of a level. -/
def newLine (level : Nat) : List Char :=
  '\n' :: List.replicate (2 * level) ' '

/-- Lay out the parts of a list or an object. -/
def layOut (level : Nat) (opening closing : Char) (parts : List (List Char)) :
    List Char :=
  if parts.isEmpty then [opening, closing]
  else
    opening :: newLine (level + 1) ++
      (',' :: newLine (level + 1)).intercalate parts ++ newLine level ++ [closing]

mutual

/-- The pretty form of a value that stands at a level. -/
def toPrettyAt (level : Nat) : Json → List Char
  | .array items => layOut level '[' ']' (prettyItems (level + 1) items)
  | .object members =>
      layOut level '\x7b' '\x7d' (prettyMembers (level + 1) members)
  | value => value.scalarText

/-- List counterpart of `Json.toPrettyAt`. -/
def prettyItems (level : Nat) : List Json → List (List Char)
  | [] => []
  | item :: items => item.toPrettyAt level :: prettyItems level items

/-- Member counterpart of `Json.toPrettyAt`. -/
def prettyMembers (level : Nat) : List (String × Json) → List (List Char)
  | [] => []
  | (key, value) :: members =>
      (quote key.toList ++ ": ".toList ++ value.toPrettyAt level) ::
        prettyMembers level members

end

def toPretty (value : Json) : List Char :=
  value.toPrettyAt 0

end Rebac.Json
