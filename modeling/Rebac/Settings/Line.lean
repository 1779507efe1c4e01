import Rebac.Settings.Quoted
import Rebac.Text.Blank

/-!
# Lines of a settings file

A line is known by its indentation and its content, and by how far it stands
below the line before it, because a scalar may run over several lines.  Blank
lines and comments say nothing themselves.  A line whose quoted scalar is still
open goes on until the scalar is closed.
-/

namespace Rebac.SettingsFile

structure Line where
  indentation : Nat
  content : List Char
  /-- The line breaks since the line before, unless a comment stands between. -/
  breaks : Option Nat
  deriving Repr, DecidableEq

/-- Write every line break as a line feed. -/
def unifyBreaks : List Char → List Char
  | [] => []
  | '\r' :: '\n' :: rest => '\n' :: unifyBreaks rest
  | '\r' :: rest => '\n' :: unifyBreaks rest
  | character :: rest => character :: unifyBreaks rest

def indentationOf (line : List Char) : Nat :=
  (line.takeWhile (· == ' ')).length

def contentOf (line : List Char) : List Char :=
  line.dropWhile (· == ' ')

/-- Whether only a comment, if anything, stands in a text. -/
def isRemark (text : List Char) : Bool :=
  match Text.skipGap text with
  | [] => true
  | first :: _ => first = '#'

/-- Drop a comment, which starts at the start of the text or after a blank. -/
def dropRemark : Bool → List Char → List Char
  | _, [] => []
  | boundary, character :: rest =>
      if boundary && character = '#' then []
      else character :: dropRemark (Text.isGap character) rest

def hasRemark (text : List Char) : Bool :=
  dropRemark true text != text

/-- The parts before and after the first colon that ends the line or stands
before a blank. -/
def splitAtColon : List Char → Option (List Char × List Char)
  | [] => none
  | [':'] => some ([], [])
  | ':' :: next :: rest =>
      if Text.isGap next then some ([], rest)
      else (splitAtColon (next :: rest)).map fun (before, after) =>
        (':' :: before, after)
  | character :: rest =>
      (splitAtColon rest).map fun (before, after) => (character :: before, after)

/-- The characters that cannot start a plain text. -/
def isIndicator (character : Char) : Bool :=
  "[]\x7b\x7d,#&*!|>'\"%@`\t".toList.contains character

/-- The characters that start a plain text only if no blank follows. -/
def isWeakIndicator (character : Char) : Bool :=
  "-?:".toList.contains character

def isPlain : List Char → Bool
  | [] => false
  | [character] => !isIndicator character && !isWeakIndicator character
  | first :: next :: _ =>
      !isIndicator first && !(isWeakIndicator first && Text.isGap next)

/-- Read a key and its colon; what follows them is returned with the key.  A
quoted key ends on the line where it starts. -/
def splitKey? (content : List Char) : Option (List Char × List Char) :=
  match quoted? content with
  | some (key, rest) => do
      let (between, value) ← splitAtColon rest
      if between.all Text.isGap && content.count '\n' = rest.count '\n' then
        some (key, value)
      else none
  | none => do
      let (key, value) ← splitAtColon content
      if isPlain key && !hasRemark key then some (Text.dropGapEnd key, value)
      else none

/-- Whether the quoted scalar of a line, which may follow a key, is still
open. -/
def isOpen (line : List Char) : Bool :=
  let content := contentOf line
  let scalar :=
    match splitKey? content with
    | some (_, value) => Text.skipGap value
    | none => content
  isQuoteMark scalar.head? && (quoted? scalar).isNone
where
  isQuoteMark (first : Option Char) : Bool :=
    first = some '"' || first = some '\''

/-- Append the lines that follow an open line. -/
def joinOpen : List (List Char) → List (List Char)
  | [] => []
  | [line] => [line]
  | line :: next :: rest =>
      if isOpen line then joinOpen ((line ++ '\n' :: next) :: rest)
      else line :: joinOpen (next :: rest)
termination_by lines => lines.length

/-- The lines that say something.  `breaks` counts from the line before. -/
def linesAfter (breaks : Option Nat) : List (List Char) → List Line
  | [] => []
  | line :: rest =>
      match Text.skipGap line with
      | [] => linesAfter (breaks.map (· + 1)) rest
      | first :: _ =>
          if first = '#' then linesAfter none rest
          else
            { indentation := indentationOf line
              content := contentOf line
              breaks } :: linesAfter (some 1) rest

/-- The lines of a file that say something. -/
def lines (text : List Char) : List Line :=
  linesAfter none (joinOpen ((unifyBreaks text).splitOn '\n'))

/-- Whether a text is a mark that starts or ends a document, if it stands at
the start of a line. -/
def isMark (text : List Char) : Bool :=
  let (mark, rest) := text.splitAt 3
  (mark = "---".toList || mark = "...".toList) &&
    (rest.head?.map fun next => Text.isGap next).getD true

/-- Drop the mark that may start a document, which must then hold something.
No other mark is accepted. -/
def document? (lines : List Line) : Option (List Line) :=
  let body? :=
    match lines with
    | [] => some []
    | first :: rest =>
        if Text.dropGapEnd (dropRemark true first.content) = "---".toList then
          if first.indentation = 0 && !rest.isEmpty then some rest else none
        else some (first :: rest)
  body?.filter fun body =>
    body.all fun line => !(line.indentation = 0 && isMark line.content)

end Rebac.SettingsFile
