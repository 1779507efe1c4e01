import Rebac.Proofs.Dsl.Numbering

/-!
# Texts behind each other

A text that ends with a line and leaves no block open contributes its own statements,
whatever follows it.  What follows is scanned as a text of its own, with lines that count
on from those in front, and no statement takes lines from both parts.
-/

namespace Rebac.Dsl

/-- A statement with some more lines in front of its text. -/
def Statement.below (count : Nat) (statement : Statement) : Statement :=
  { statement with line := statement.line + count }

theorem Scans.bounds {number : Nat} {lines : List (List Char)} {statements : List Statement}
    (scans : Scans number lines statements) {statement : Statement}
    (member : statement ∈ statements) :
    number ≤ statement.line ∧ statement.line < number + lines.length := by
  obtain ⟨before, after, rfl⟩ := List.append_of_mem member
  obtain ⟨front, own, back, rfl, _, spans, _⟩ := scans.exists_spans
  obtain ⟨line, rest, rfl, _⟩ := spans.exists_solid
  rw [spans.line_eq, List.length_append, List.length_append, List.length_cons]
  omega

theorem scanFrom_behind (count : Nat) (lines : List (List Char)) :
    scanFrom (1 + count) none lines = renumberScan 0 count (scanFrom 1 none lines) :=
  scanFrom_renumber count Nat.zero_lt_one none lines

theorem scanFrom_below (count : Nat) {lines : List (List Char)} {statements : List Statement}
    (scanned : scanFrom 1 none lines = .ok statements) :
    scanFrom (1 + count) none lines = .ok (statements.map (·.below count)) := by
  have sameStatements : statements.map (·.renumber 0 count) =
      statements.map (·.below count) := by
    apply List.map_congr_left
    intro statement member
    have scans : Scans 1 lines statements := scanFrom_eq_ok_iff.mp scanned
    have positive : 0 < statement.line := (scans.bounds member).1
    rw [Statement.renumber, renumber_of_lt positive, Statement.below]
  rw [scanFrom_behind, scanned, ← sameStatements]
  rfl

/-- A block that is never closed is named by its line, counted from the first of all. -/
theorem scanFrom_below_error (count : Nat) {lines : List (List Char)} {error : Error}
    (failed : scanFrom 1 none lines = .error error) :
    ∃ start, error = .unterminated start ∧
      scanFrom (1 + count) none lines = .error (.unterminated (start + count)) := by
  obtain ⟨start, rfl, stillOpen | names⟩ := scanFrom_eq_error failed
  · cases stillOpen
  · refine ⟨start, rfl, ?_⟩
    have further : renumber 0 count start = start + count :=
      renumber_of_lt names.exists_getElem?.1
    rw [scanFrom_behind, failed, ← further]
    rfl

variable {front : List Char} {statements : List Statement}

/-- A text behind another is scanned as if it stood alone, with lines that count on from
those in front.  The lines of the whole are those of the two parts, and each part makes up
its own statements.  If the text behind leaves a block open, the whole does so, too. -/
theorem scan_append (complete : Text.IsComplete front) (scanned : scan front = .ok statements)
    (back : List Char) :
    Text.lines (front ++ back) = Text.lines front ++ Text.lines back ∧
      Scans 1 (Text.lines front) statements ∧
      (∀ later, scan back = .ok later →
        scan (front ++ back) =
            .ok (statements ++ later.map (·.below (Text.lines front).length)) ∧
          Scans (1 + (Text.lines front).length) (Text.lines back)
            (later.map (·.below (Text.lines front).length))) ∧
      ∀ error, scan back = .error error →
        ∃ start, error = .unterminated start ∧
          scan (front ++ back) =
            .error (.unterminated (start + (Text.lines front).length)) := by
  have scans : Scans 1 (Text.lines front) statements := scanFrom_eq_ok_iff.mp scanned
  have whole : scan (front ++ back) =
      (scanFrom (1 + (Text.lines front).length) none (Text.lines back)).map
        (statements ++ ·) := by
    rw [scan, complete.lines_append]
    exact scans.scanFrom_append (Text.lines back)
  refine ⟨complete.lines_append back, scans, ?_, ?_⟩
  · intro later scannedLater
    have below := scanFrom_below (Text.lines front).length scannedLater
    refine ⟨?_, scanFrom_eq_ok_iff.mp below⟩
    rw [whole, below]
    rfl
  · intro error failed
    obtain ⟨start, unterminated, below⟩ :=
      scanFrom_below_error (Text.lines front).length failed
    refine ⟨start, unterminated, ?_⟩
    rw [whole, below]
    rfl

/-- Four lines with a block among them, two of which end with a carriage return. -/
def blockAbove : List Char :=
  "condition c(a: int) \x7b\r\n  a > 1\n\x7d # done\r\n\n".toList

def blockAboveStatements : List Statement :=
  [{ line := 1, text := "condition c(a: int) \x7b\n  a > 1\n\x7d".toList }]

theorem scan_append_blockAbove :
    (Text.IsComplete blockAbove ∧ scan blockAbove = .ok blockAboveStatements) ∧
      scan (blockAbove ++ "\ntype user".toList) =
        .ok (blockAboveStatements ++ [{ line := 6, text := "type user".toList }]) ∧
      scan (blockAbove ++ "type user\ncondition d() \x7b '\x7d'".toList) =
        .error (.unterminated 6) := by
  have complete : Text.IsComplete blockAbove :=
    .inr ⟨"condition c(a: int) \x7b\r\n  a > 1\n\x7d # done\r\n".toList, rfl⟩
  have scanned : scan blockAbove = .ok blockAboveStatements := by decide +kernel
  have typeBelow : scan "\ntype user".toList =
      .ok [{ line := 2, text := "type user".toList }] := by decide +kernel
  have openBelow : scan "type user\ncondition d() \x7b '\x7d'".toList =
      .error (.unterminated 2) := by decide +kernel
  obtain ⟨_, _, closed, _⟩ := scan_append complete scanned "\ntype user".toList
  obtain ⟨_, _, _, unclosed⟩ :=
    scan_append complete scanned "type user\ncondition d() \x7b '\x7d'".toList
  obtain ⟨start, same, failed⟩ := unclosed _ openBelow
  obtain rfl : 2 = start := congrArg Error.line same
  exact ⟨⟨complete, scanned⟩, (closed _ typeBelow).1, failed⟩

end Rebac.Dsl
