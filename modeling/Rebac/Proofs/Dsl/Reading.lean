import Rebac.Dsl.Draft
import Rebac.Proofs.Dsl.Braces
import Rebac.Proofs.Dsl.Scan

/-!
# Reading line by line

Reading a text scans it into statements and applies these to a draft.  Seen from
a line in the middle, it takes the draft so far and the block that is open to a
final draft.  Each lemma says what one line, or the lines of a block, contribute
to that.
-/

namespace Rebac.Dsl

/-- Scanning the lines yields statements that take one draft to another. -/
def Reads (number : Nat) (block : Option OpenBlock) (lines : List (List Char))
    (draft final : Draft) : Prop :=
  ∃ statements, scanFrom number block lines = .ok statements ∧
    draft.applyAll statements = .ok final

theorem read_eq_ok_iff {schemaVersion : String} {text : List Char} {model : Model} :
    read schemaVersion text = .ok model ↔
      ∃ final, Reads 1 none (Text.lines text) (Draft.start schemaVersion) final ∧
        final.model = model := by
  unfold read Reads scan
  cases scanFrom 1 none (Text.lines text) with
  | error failure => simp
  | ok statements =>
      simp only [map_eq_ok_iff, Except.ok.injEq]
      constructor
      · rintro ⟨final, applied, same⟩
        exact ⟨final, ⟨statements, rfl, applied⟩, same⟩
      · rintro ⟨final, ⟨_, rfl, applied⟩, same⟩
        exact ⟨final, applied, same⟩

theorem applyAll_cons_eq_ok_iff {draft final : Draft} {statement : Statement}
    {statements : List Statement} :
    draft.applyAll (statement :: statements) = .ok final ↔
      ∃ next, draft.applyText statement.text = .ok next ∧
        next.applyAll statements = .ok final := by
  rw [Draft.applyAll, Draft.apply]
  cases draft.applyText statement.text with
  | error fault => simp
  | ok next => simp

variable {number : Nat} {lines : List (List Char)} {draft final : Draft}

theorem reads_nil : Reads number none [] draft final ↔ draft = final := by
  simp [Reads, scanFrom, Draft.applyAll]

private theorem reads_of_scan {block : Option OpenBlock} (statement : Statement)
    {rest : List (List Char)}
    (scanned : scanFrom number block lines =
      (scanFrom (number + 1) none rest).map (statement :: ·)) :
    Reads number block lines draft final ↔
      ∃ next, draft.applyText statement.text = .ok next ∧
        Reads (number + 1) none rest next final := by
  unfold Reads
  rw [scanned]
  constructor
  · rintro ⟨_, mapped, applied⟩
    obtain ⟨statements, scannedRest, rfl⟩ := map_eq_ok_iff.mp mapped
    obtain ⟨next, first, later⟩ := applyAll_cons_eq_ok_iff.mp applied
    exact ⟨next, first, statements, scannedRest, later⟩
  · rintro ⟨next, first, statements, scannedRest, later⟩
    exact ⟨statement :: statements, map_eq_ok_iff.mpr ⟨statements, scannedRest, rfl⟩,
      applyAll_cons_eq_ok_iff.mpr ⟨next, first, later⟩⟩

theorem reads_blank {line : List Char} (blank : Text.trim line = []) :
    Reads number none (line :: lines) draft final ↔
      Reads (number + 1) none lines draft final := by
  unfold Reads
  rw [scanFrom_skip fun solid => solid.1 blank]

theorem reads_blanks {blanks : List (List Char)}
    (blank : ∀ line ∈ blanks, Text.trim line = []) :
    Reads number none (blanks ++ lines) draft final ↔
      Reads (number + blanks.length) none lines draft final := by
  induction blanks generalizing number with
  | nil => rfl
  | cons line blanks induction =>
      have first := blank line List.mem_cons_self
      have others := fun other member => blank other (List.mem_cons_of_mem line member)
      rw [List.cons_append, reads_blank first, induction others, add_length_cons]

/-- A line that is no comment and opens no block is a statement. -/
theorem reads_statement {line : List Char} (filled : Text.trim line ≠ [])
    (noComment : startsComment (Text.trim line) = false)
    (noCondition : startsCondition (Text.trim line) = false) :
    Reads number none (line :: lines) draft final ↔
      ∃ next, draft.applyText (dropTrailingComment (Text.trim line)) = .ok next ∧
        Reads (number + 1) none lines next final := by
  apply reads_of_scan
    { line := number, text := dropTrailingComment (Text.trim line) }
  exact scanFrom_plain ⟨filled, noComment⟩ noCondition

theorem reads_opening {line : List Char} {braces : Braces}
    (filled : Text.trim line ≠ []) (noComment : startsComment (Text.trim line) = false)
    (condition : startsCondition (Text.trim line) = true)
    (opened : countBraces .outside Braces.start (Text.trim line) = .pending braces) :
    Reads number none (line :: lines) draft final ↔
      Reads (number + 1)
        (some { line := number, reversed := (Text.trim line).reverse, braces })
        lines draft final := by
  unfold Reads
  rw [scanFrom_opening ⟨filled, noComment⟩ condition opened]

theorem reads_inner {block : OpenBlock} {line : List Char} {braces : Braces}
    (noComment : startsComment (Text.trim line) = false)
    (stays : countBraces .outside block.braces line = .pending braces) :
    Reads number (some block) (line :: lines) draft final ↔
      Reads (number + 1) (some (block.extend [line] braces)) lines draft final := by
  unfold Reads
  rw [scanFrom_inner noComment stays]

/-- Lines that neither look like comments nor close a block belong to it. -/
theorem reads_body {block : OpenBlock} {body : List (List Char)} {braces : Braces}
    (behind : bracesBehind? block.braces body = some braces) :
    Reads number (some block) (body ++ lines) draft final ↔
      Reads (number + body.length) (some (block.extend body braces)) lines
        draft final := by
  induction body generalizing number block with
  | nil =>
      obtain rfl : block.braces = braces := by simpa [bracesBehind?] using behind
      simp [OpenBlock.extend, blockText]
  | cons line body induction =>
      rw [bracesBehind?] at behind
      cases comment : startsComment (Text.trim line) with
      | true => simp [comment] at behind
      | false =>
          cases counted : countBraces .outside block.braces line with
          | closed through tail => simp [comment, counted] at behind
          | pending inner =>
              have rest : bracesBehind? (block.extend [line] inner).braces body =
                  some braces := by
                simpa [comment, counted, OpenBlock.extend] using behind
              rw [List.cons_append, reads_inner comment counted, induction rest,
                OpenBlock.extend_extend, add_length_cons, List.singleton_append]

theorem reads_closing {block : OpenBlock} {line through tail : List Char}
    (noComment : startsComment (Text.trim line) = false)
    (closed : countBraces .outside block.braces line = .closed through tail) :
    Reads number (some block) (line :: lines) draft final ↔
      ∃ next,
        draft.applyText (block.reversed.reverse ++ '\n' :: closingLine through tail) =
            .ok next ∧
          Reads (number + 1) none lines next final := by
  apply reads_of_scan
    { line := block.line
      text := block.reversed.reverse ++ '\n' :: closingLine through tail }
  exact scanFrom_closing noComment closed

/-- The lines of a block that the scanner keeps. -/
def keptLines (lines : List (List Char)) : List (List Char) :=
  lines.filter fun line => !startsComment (Text.trim line)

/-- The last of the lines that complete a block closes it. -/
theorem Closes.exists_closing {block : OpenBlock} {own : List (List Char)}
    {statement : Statement} (closes : Closes block own statement) :
    ∃ front line through tail braces,
      own = front ++ [line] ∧
        bracesBehind? block.braces (keptLines front) = some braces ∧
          startsComment (Text.trim line) = false ∧
            countBraces .outside braces line = .closed through tail ∧
              statement.text = block.reversed.reverse ++ blockText (keptLines front) ++
                '\n' :: closingLine through tail := by
  induction closes with
  | comment comment closes induction =>
      rename_i block line own statement
      obtain ⟨front, last, through, tail, braces, rfl, behind, rest⟩ := induction
      have same : keptLines (line :: front) = keptLines front := by
        simp [keptLines, comment]
      refine ⟨line :: front, last, through, tail, braces, rfl, ?_⟩
      rw [same]
      exact ⟨behind, rest⟩
  | inner noComment stays closes induction =>
      rename_i block line own statement inner
      obtain ⟨front, last, through, tail, braces, rfl, behind, lastComment, closed, text⟩ :=
        induction
      have kept : keptLines (line :: front) = line :: keptLines front := by
        simp [keptLines, noComment]
      refine ⟨line :: front, last, through, tail, braces, rfl, ?_, lastComment, closed, ?_⟩
      · rw [kept, bracesBehind?, noComment, stays]
        exact behind
      · simpa [kept, OpenBlock.extend, blockText] using text
  | closing noComment closed =>
      rename_i block line through rest
      refine ⟨[], line, through, rest, block.braces, rfl, rfl, noComment, closed, ?_⟩
      simp [keptLines, blockText]

theorem exists_closing {block : OpenBlock}
    (reads : Reads number (some block) lines draft final) :
    ∃ front line later through tail braces next number,
      lines = front ++ line :: later ∧
        bracesBehind? block.braces (keptLines front) = some braces ∧
          startsComment (Text.trim line) = false ∧
            countBraces .outside braces line = .closed through tail ∧
              draft.applyText (block.reversed.reverse ++ blockText (keptLines front) ++
                '\n' :: closingLine through tail) = .ok next ∧
                Reads number none later next final := by
  obtain ⟨statements, scanned, applied⟩ := reads
  obtain ⟨own, statement, back, later, rfl, rfl, closes, scans⟩ :=
    scanFrom_some_eq_ok_iff.mp scanned
  obtain ⟨front, line, through, tail, braces, rfl, behind, noComment, closed, text⟩ :=
    closes.exists_closing
  obtain ⟨next, first, rest⟩ := applyAll_cons_eq_ok_iff.mp applied
  rw [text] at first
  exact ⟨front, line, back, through, tail, braces, next, _, by simp, behind, noComment,
    closed, first, later, scanFrom_eq_ok_iff.mpr scans, rest⟩

end Rebac.Dsl
