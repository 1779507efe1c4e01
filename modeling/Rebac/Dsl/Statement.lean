import Rebac.Condition.Token
import Rebac.Dsl.Error
import Rebac.Text.Lines

/-!
# Statements of DSL text

A statement is one line without its trailing comment, or a condition block
from its first line to the line that closes its braces.  Lines that hold only a
comment are dropped, and so are blank lines outside of blocks.  Braces inside
string literals do not count; a literal is taken to end with its line.
-/

namespace Rebac.Dsl

structure Statement where
  /-- The line on which the statement starts, counted from one. -/
  line : Nat
  text : List Char
  deriving Repr, DecidableEq

/-- What follows a keyword that stands at the start of a text as a word of its
own. -/
def afterKeyword? (keyword text : List Char) : Option (List Char) :=
  match List.isPrefixOf? keyword text with
  | none => none
  | some [] => some []
  | some (next :: rest) =>
      if Text.isBlank next || next = '(' then some (next :: rest) else none

def startsCondition (text : List Char) : Bool :=
  (afterKeyword? "condition".toList text).isSome

def Statement.isCondition (statement : Statement) : Bool :=
  startsCondition statement.text

def startsComment : List Char → Bool
  | '#' :: _ => true
  | _ => false

/-- Drop the first `#` that stands at the start or after a blank, and all that
follows it. -/
def cutComment : Bool → List Char → List Char
  | _, [] => []
  | boundary, character :: rest =>
      if boundary && character = '#' then []
      else character :: cutComment (Text.isAsciiBlank character) rest

def dropTrailingComment (line : List Char) : List Char :=
  Text.trimEnd (cutComment true line)

/-- The nesting of braces in a block, and whether any brace was opened. -/
structure Braces where
  depth : Int
  opened : Bool
  deriving Repr, DecidableEq

namespace Braces

def start : Braces :=
  { depth := 0, opened := false }

def enter (braces : Braces) : Braces :=
  { depth := braces.depth + 1, opened := true }

def leave (braces : Braces) : Braces :=
  { braces with depth := braces.depth - 1 }

def isClosed (braces : Braces) : Bool :=
  braces.opened && braces.depth ≤ 0

end Braces

/-- How the end of a prefix of a line stands to string literals. -/
inductive Quoting where
  | outside
  | inside (quote : Char)
  | escaped (quote : Char)
  deriving Repr, DecidableEq

/-- The outcome of counting the braces of one line: the block stays open, or
the line divides right behind the brace that closes it. -/
inductive LineEnd where
  | pending (braces : Braces)
  | closed (through rest : List Char)
  deriving Repr, DecidableEq

/-- The outcome for a line with one more character in front. -/
def LineEnd.behind (character : Char) : LineEnd → LineEnd
  | .pending braces => .pending braces
  | .closed through rest => .closed (character :: through) rest

/-- Count the braces of a line. -/
def countBraces : Quoting → Braces → List Char → LineEnd
  | _, braces, [] => .pending braces
  | .inside quote, braces, character :: rest =>
      let quoting :=
        if character = '\\' then .escaped quote
        else if character = quote then .outside
        else .inside quote
      (countBraces quoting braces rest).behind character
  | .escaped quote, braces, character :: rest =>
      (countBraces (.inside quote) braces rest).behind character
  | .outside, braces, character :: rest =>
      if Expression.isQuote character then
        (countBraces (.inside character) braces rest).behind character
      else if character = '\x7b' then
        (countBraces .outside braces.enter rest).behind character
      else if character = '\x7d' then
        if braces.leave.isClosed then .closed [character] rest
        else (countBraces .outside braces.leave rest).behind character
      else (countBraces .outside braces rest).behind character

/-- The last line of a block ends with its closing brace if at most a comment
follows, and is kept whole otherwise. -/
def closingLine (through rest : List Char) : List Char :=
  let remark := Text.trimStart rest
  if remark.isEmpty || startsComment remark then through else through ++ rest

/-- A condition block that has not been closed yet. -/
structure OpenBlock where
  line : Nat
  /-- The text read so far, backwards. -/
  reversed : List Char
  braces : Braces
  deriving Repr, DecidableEq

/-- Scan the lines from a line number on, possibly inside a block. -/
def scanFrom : Nat → Option OpenBlock → List (List Char) →
    Except Error (List Statement)
  | _, none, [] => .ok []
  | _, some block, [] =>
      .error { line := block.line, fault := .unterminatedBlock block.line }
  | number, some block, raw :: lines =>
      if startsComment (Text.trim raw) then scanFrom (number + 1) (some block) lines
      else
        match countBraces .outside block.braces raw with
        | .pending braces =>
            let reversed := raw.reverse ++ '\n' :: block.reversed
            scanFrom (number + 1) (some { block with reversed, braces }) lines
        | .closed through rest =>
            let text := block.reversed.reverse ++ '\n' :: closingLine through rest
            (scanFrom (number + 1) none lines).map
              ({ line := block.line, text } :: ·)
  | number, none, raw :: lines =>
      let text := Text.trim raw
      if text.isEmpty || startsComment text then scanFrom (number + 1) none lines
      else if startsCondition text then
        match countBraces .outside Braces.start text with
        | .pending braces =>
            let reversed := text.reverse
            scanFrom (number + 1) (some { line := number, reversed, braces }) lines
        | .closed through rest =>
            (scanFrom (number + 1) none lines).map
              ({ line := number, text := closingLine through rest } :: ·)
      else
        (scanFrom (number + 1) none lines).map
          ({ line := number, text := dropTrailingComment text } :: ·)

/-- Split DSL text into statements. -/
def scan (text : List Char) : Except Error (List Statement) :=
  scanFrom 1 none (Text.lines text)

theorem append_of_countBraces {quoting : Quoting} {braces : Braces}
    {line through rest : List Char}
    (closed : countBraces quoting braces line = .closed through rest) :
    line = through ++ rest := by
  have behind : ∀ {character : Char} {outcome : LineEnd} {through : List Char},
      outcome.behind character = .closed through rest →
        ∃ tail, through = character :: tail ∧ outcome = .closed tail rest := by
    intro character outcome through equal
    cases outcome with
    | pending braces => simp [LineEnd.behind] at equal
    | closed tail other =>
        simp only [LineEnd.behind, LineEnd.closed.injEq] at equal
        exact ⟨tail, equal.1.symm, by rw [equal.2]⟩
  induction line generalizing quoting braces through with
  | nil => cases quoting <;> simp [countBraces] at closed
  | cons character line induction =>
      cases quoting with
      | inside quote =>
          obtain ⟨tail, rfl, inner⟩ := behind closed
          simp [induction inner]
      | escaped quote =>
          obtain ⟨tail, rfl, inner⟩ := behind closed
          simp [induction inner]
      | outside =>
          simp only [countBraces] at closed
          split at closed
          · obtain ⟨tail, rfl, inner⟩ := behind closed
            simp [induction inner]
          · split at closed
            · obtain ⟨tail, rfl, inner⟩ := behind closed
              simp [induction inner]
            · split at closed
              · split at closed
                · obtain ⟨rfl, rfl⟩ := by simpa using closed
                  rfl
                · obtain ⟨tail, rfl, inner⟩ := behind closed
                  simp [induction inner]
              · obtain ⟨tail, rfl, inner⟩ := behind closed
                simp [induction inner]

end Rebac.Dsl
