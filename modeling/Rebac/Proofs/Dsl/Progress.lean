import Rebac.Proofs.Dsl.Scan

/-!
# Scanning one line after the other

A line completes a statement, opens a block, extends the open block or is dropped.  What
scanning has found behind some lines depends on these lines only, and the lines that
follow are scanned from there.  Scanning fails only at the end, if a block is open there.
-/

namespace Rebac.Dsl

/-- The statements that are complete behind some lines, and the block that is open there. -/
structure Progress where
  statements : List Statement
  block : Option OpenBlock
  deriving Repr, DecidableEq

/-- What a line adds behind an open block, if there is one. -/
def advance (number : Nat) : Option OpenBlock → List Char → Progress
  | some block, line =>
      if startsComment (Text.trim line) then { statements := [], block := some block }
      else
        match countBraces .outside block.braces line with
        | .pending braces => { statements := [], block := some (block.extend [line] braces) }
        | .closed through rest =>
            { statements := [{
                line := block.line
                text := block.reversed.reverse ++ '\n' :: closingLine through rest }]
              block := none }
  | none, line =>
      let text := Text.trim line
      if text.isEmpty || startsComment text then { statements := [], block := none }
      else if startsCondition text then
        match countBraces .outside Braces.start text with
        | .pending braces =>
            { statements := []
              block := some { line := number, reversed := text.reverse, braces } }
        | .closed through rest =>
            { statements := [{ line := number, text := closingLine through rest }]
              block := none }
      else
        { statements := [{ line := number, text := dropTrailingComment text }], block := none }

/-- What scanning lines from a line number on has found, behind an open block if there is
one. -/
def progress : Nat → Option OpenBlock → List (List Char) → Progress
  | _, block, [] => { statements := [], block }
  | number, block, line :: lines =>
      let first := advance number block line
      let later := progress (number + 1) first.block lines
      { later with statements := first.statements ++ later.statements }

section Steps

variable {number : Nat} {line through rest : List Char} {braces : Braces} {block : OpenBlock}

theorem advance_skip (skipped : ¬IsSolid line) :
    advance number none line = { statements := [], block := none } := by
  have either : (Text.trim line).isEmpty || startsComment (Text.trim line) := by
    simpa [IsSolid, Classical.or_iff_not_imp_left] using skipped
  simp [advance, either]

theorem advance_plain (solid : IsSolid line)
    (noCondition : startsCondition (Text.trim line) = false) :
    advance number none line =
      { statements := [{ line := number, text := dropTrailingComment (Text.trim line) }]
        block := none } := by
  simp [advance, solid.1, solid.2, noCondition]

theorem advance_opening (solid : IsSolid line)
    (condition : startsCondition (Text.trim line) = true)
    (opened : countBraces .outside Braces.start (Text.trim line) = .pending braces) :
    advance number none line =
      { statements := []
        block := some { line := number, reversed := (Text.trim line).reverse, braces } } := by
  simp [advance, solid.1, solid.2, condition, opened]

theorem advance_closed (solid : IsSolid line)
    (condition : startsCondition (Text.trim line) = true)
    (closed : countBraces .outside Braces.start (Text.trim line) = .closed through rest) :
    advance number none line =
      { statements := [{ line := number, text := closingLine through rest }]
        block := none } := by
  simp [advance, solid.1, solid.2, condition, closed]

theorem advance_comment (comment : startsComment (Text.trim line) = true) :
    advance number (some block) line = { statements := [], block := some block } := by
  simp [advance, comment]

theorem advance_inner (noComment : startsComment (Text.trim line) = false)
    (stays : countBraces .outside block.braces line = .pending braces) :
    advance number (some block) line =
      { statements := [], block := some (block.extend [line] braces) } := by
  simp [advance, noComment, stays]

theorem advance_closing (noComment : startsComment (Text.trim line) = false)
    (closed : countBraces .outside block.braces line = .closed through rest) :
    advance number (some block) line =
      { statements := [{
          line := block.line
          text := block.reversed.reverse ++ '\n' :: closingLine through rest }]
        block := none } := by
  simp [advance, noComment, closed]

end Steps

/-- Scanning takes one line at a time. -/
theorem scanFrom_cons (number : Nat) (block : Option OpenBlock) (line : List Char)
    (lines : List (List Char)) :
    scanFrom number block (line :: lines) =
      (scanFrom (number + 1) (advance number block line).block lines).map
        ((advance number block line).statements ++ ·) := by
  cases block with
  | some block =>
      cases comment : startsComment (Text.trim line) with
      | true =>
          rw [scanFrom_comment comment, advance_comment comment]
          exact (map_self _).symm
      | false =>
          cases counted : countBraces .outside block.braces line with
          | pending braces =>
              rw [scanFrom_inner comment counted, advance_inner comment counted]
              exact (map_self _).symm
          | closed through rest =>
              rw [scanFrom_closing comment counted, advance_closing comment counted]
              rfl
  | none =>
      by_cases solid : IsSolid line
      · cases condition : startsCondition (Text.trim line) with
        | false =>
            rw [scanFrom_plain solid condition, advance_plain solid condition]
            rfl
        | true =>
            cases counted : countBraces .outside Braces.start (Text.trim line) with
            | pending braces =>
                rw [scanFrom_opening solid condition counted,
                  advance_opening solid condition counted]
                exact (map_self _).symm
            | closed through rest =>
                rw [scanFrom_closed solid condition counted,
                  advance_closed solid condition counted]
                rfl
      · rw [scanFrom_skip solid, advance_skip solid]
        exact (map_self _).symm

/-- The lines behind some lines are scanned from where these end. -/
theorem scanFrom_append (number : Nat) (block : Option OpenBlock)
    (front back : List (List Char)) :
    scanFrom number block (front ++ back) =
      (scanFrom (number + front.length) (progress number block front).block back).map
        ((progress number block front).statements ++ ·) := by
  induction front generalizing number block with
  | nil => exact (map_self _).symm
  | cons line front induction =>
      rw [List.cons_append, scanFrom_cons, induction, map_append_map, add_length_cons]
      rfl

end Rebac.Dsl
