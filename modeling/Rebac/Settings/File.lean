import Rebac.Settings.Layer
import Rebac.Settings.Line

/-!
# Settings files

A settings file is a block mapping: every line holds a key and a colon, and the
value of the key follows on the line or in deeper lines below.  Values are
mappings again, or scalars that are plain or quoted and may run over several
lines.  Files of any other form are refused.
-/

namespace Rebac.SettingsFile

/-- Join the lines of a plain scalar, which holds no key.  A comment can only
follow the last of them. -/
def plainText? (text : List Char) : List Line → Option (List Char)
  | [] =>
      let text := dropRemark true text
      if (splitAtColon text).isSome then none else some (Text.dropGapEnd text)
  | line :: lines => do
      let breaks ← line.breaks
      let rest ← plainText? (Text.skipGap line.content) lines
      if hasRemark text || (splitAtColon text).isSome then none
      else some (Text.dropGapEnd text ++ foldBreaks breaks ++ rest)

/-- Whether the further lines of a quoted scalar stand at an indentation or
deeper, none of them being a mark. -/
def isIndented (indentation : Nat) (text : List Char) : Bool :=
  (text.splitOn '\n').tail.all fun line =>
    (Text.skipGap line).isEmpty ||
      (indentation ≤ indentationOf line && !isMark line)

/-- Read the scalar that starts with a text and may go on in deeper lines.  The
mapping that holds it stands at an indentation. -/
def scalar? (indentation : Nat) (text : List Char) (below : List Line) :
    Option Scalar :=
  let text := Text.skipGap text
  match quoted? text with
  | some (value, rest) =>
      let ends := rest.isEmpty || (isRemark rest && rest.head? != some '#')
      if ends && isIndented indentation text && below.isEmpty then
        some (.text (String.ofList value))
      else none
  | none =>
      if isPlain (Text.dropGapEnd (dropRemark true text)) then
        (plainText? text below).bind Scalar.ofPlain?
      else none

def Line.isBelow (indentation : Nat) (line : Line) : Bool :=
  indentation < line.indentation

/-- The assignments of a mapping whose keys stand at an indentation.  `above`
leads to the mapping.  An entry gives way to a later one of the same key. -/
def mapping? (above : List String) (indentation : Nat) :
    List Line → Option (List Assignment)
  | [] => some []
  | line :: rest => do
      let (key, value) ←
        if line.indentation = indentation then splitKey? line.content else none
      let path := above ++ [String.ofList key]
      let assign := fun (scalar : Scalar) => [{ path, value := scalar : Assignment }]
      let here ←
        match _below : rest.takeWhile (Line.isBelow indentation) with
        | [] =>
            if isRemark value then some (assign .null)
            else (scalar? indentation value []).map assign
        | first :: more =>
            if !isRemark value then
              (scalar? indentation value (first :: more)).map assign
            else if (splitKey? first.content).isSome then
              mapping? path first.indentation (first :: more)
            else (scalar? indentation first.content more).map assign
      let others ←
        mapping? above indentation (rest.dropWhile (Line.isBelow indentation))
      some
        (if others.any fun other => path.isPrefixOf other.path then others
        else here ++ others)
termination_by lines => lines.length
decreasing_by
  · exact Nat.lt_succ_of_le (List.dropWhile_sublist _).length_le
  · rw [← _below]
    exact Nat.lt_succ_of_le (List.takeWhile_sublist _).length_le

/-- The keys of the outermost mapping may be paths. -/
def expandKey (assignment : Assignment) : Assignment :=
  match assignment.path with
  | [] => assignment
  | key :: path => { assignment with path := Layer.pathOfKey key.toList ++ path }

/-- Read a settings file, which may start with a byte order mark. -/
def read? (text : List Char) : Option (List Assignment) := do
  let text := (List.isPrefixOf? ['\ufeff'] text).getD text
  match ← document? (lines text) with
  | [] => some []
  | first :: rest =>
      let assignments ← mapping? [] first.indentation (first :: rest)
      some (assignments.map expandKey)

end Rebac.SettingsFile
