import Rebac.Dsl.Statement
import Rebac.Proofs.Outcome
import Rebac.Proofs.Text.Lines

/-!
# Statements as runs of lines

`Scans` says which runs of lines make up which statements: a statement spans its own
lines, from the line that it starts on to the line that closes its braces, and what
stands between two statements is blank or a comment.  Scanning succeeds exactly with
these statements, goes on behind them as if nothing had been read, and fails inside of
each of them.
-/

namespace Rebac.Dsl

/-- Lines of a block, each behind a line break. -/
def blockText (lines : List (List Char)) : List Char :=
  lines.flatMap ('\n' :: ·)

/-- A block with more lines read, and the nesting behind them. -/
def OpenBlock.extend (block : OpenBlock) (lines : List (List Char))
    (braces : Braces) : OpenBlock :=
  { block with reversed := (blockText lines).reverse ++ block.reversed, braces }

theorem OpenBlock.extend_extend (block : OpenBlock) (front back : List (List Char))
    (inner braces : Braces) :
    (block.extend front inner).extend back braces = block.extend (front ++ back) braces := by
  simp [extend, blockText]

/-- A line that is neither blank nor a comment. -/
def IsSolid (line : List Char) : Prop :=
  Text.trim line ≠ [] ∧ startsComment (Text.trim line) = false

instance (line : List Char) : Decidable (IsSolid line) :=
  inferInstanceAs (Decidable (_ ∧ _))

/-- The lines that complete an open block, up to the one with its closing brace. -/
inductive Closes : OpenBlock → List (List Char) → Statement → Prop where
  | comment {block : OpenBlock} {line : List Char} {own : List (List Char)}
      {statement : Statement} :
      startsComment (Text.trim line) = true →
      Closes block own statement →
      Closes block (line :: own) statement
  | inner {block : OpenBlock} {line : List Char} {own : List (List Char)}
      {statement : Statement} {braces : Braces} :
      startsComment (Text.trim line) = false →
      countBraces .outside block.braces line = .pending braces →
      Closes (block.extend [line] braces) own statement →
      Closes block (line :: own) statement
  | closing {block : OpenBlock} {line through rest : List Char} :
      startsComment (Text.trim line) = false →
      countBraces .outside block.braces line = .closed through rest →
      Closes block [line]
        { line := block.line
          text := block.reversed.reverse ++ '\n' :: closingLine through rest }

/-- The lines of the statement that starts on a numbered line. -/
inductive Spans (number : Nat) : List (List Char) → Statement → Prop where
  | plain {line : List Char} :
      IsSolid line →
      startsCondition (Text.trim line) = false →
      Spans number [line] { line := number, text := dropTrailingComment (Text.trim line) }
  | closed {line through rest : List Char} :
      IsSolid line →
      startsCondition (Text.trim line) = true →
      countBraces .outside Braces.start (Text.trim line) = .closed through rest →
      Spans number [line] { line := number, text := closingLine through rest }
  | block {line : List Char} {own : List (List Char)} {statement : Statement}
      {braces : Braces} :
      IsSolid line →
      startsCondition (Text.trim line) = true →
      countBraces .outside Braces.start (Text.trim line) = .pending braces →
      Closes { line := number, reversed := (Text.trim line).reverse, braces } own
        statement →
      Spans number (line :: own) statement

/-- The statements that lines make up, the first of which has the number. -/
inductive Scans : Nat → List (List Char) → List Statement → Prop where
  | nil {number : Nat} : Scans number [] []
  | skip {number : Nat} {line : List Char} {lines : List (List Char)}
      {statements : List Statement} :
      ¬IsSolid line →
      Scans (number + 1) lines statements →
      Scans number (line :: lines) statements
  | statement {number : Nat} {own lines : List (List Char)} {statement : Statement}
      {statements : List Statement} :
      Spans number own statement →
      Scans (number + own.length) lines statements →
      Scans number (own ++ lines) (statement :: statements)

section Steps

variable {number : Nat} {line : List Char} {lines : List (List Char)} {block : OpenBlock}

theorem add_length_cons (number : Nat) (line : List Char) (lines : List (List Char)) :
    number + (line :: lines).length = number + 1 + lines.length := by
  rw [List.length_cons]
  omega

theorem scanFrom_skip (skipped : ¬IsSolid line) :
    scanFrom number none (line :: lines) = scanFrom (number + 1) none lines := by
  by_cases blank : Text.trim line = []
  · simp [scanFrom, blank]
  · have comment : startsComment (Text.trim line) = true := by
      simpa [IsSolid, blank] using skipped
    simp [scanFrom, comment]

theorem scanFrom_plain (solid : IsSolid line)
    (noCondition : startsCondition (Text.trim line) = false) :
    scanFrom number none (line :: lines) =
      (scanFrom (number + 1) none lines).map
        ({ line := number, text := dropTrailingComment (Text.trim line) } :: ·) := by
  simp [scanFrom, solid.1, solid.2, noCondition]

theorem scanFrom_closed {through rest : List Char} (solid : IsSolid line)
    (condition : startsCondition (Text.trim line) = true)
    (closed : countBraces .outside Braces.start (Text.trim line) = .closed through rest) :
    scanFrom number none (line :: lines) =
      (scanFrom (number + 1) none lines).map
        ({ line := number, text := closingLine through rest } :: ·) := by
  simp [scanFrom, solid.1, solid.2, condition, closed]

theorem scanFrom_opening {braces : Braces} (solid : IsSolid line)
    (condition : startsCondition (Text.trim line) = true)
    (opened : countBraces .outside Braces.start (Text.trim line) = .pending braces) :
    scanFrom number none (line :: lines) =
      scanFrom (number + 1)
        (some { line := number, reversed := (Text.trim line).reverse, braces }) lines := by
  simp [scanFrom, solid.1, solid.2, condition, opened]

theorem scanFrom_comment (comment : startsComment (Text.trim line) = true) :
    scanFrom number (some block) (line :: lines) =
      scanFrom (number + 1) (some block) lines := by
  simp [scanFrom, comment]

theorem scanFrom_inner {braces : Braces}
    (noComment : startsComment (Text.trim line) = false)
    (stays : countBraces .outside block.braces line = .pending braces) :
    scanFrom number (some block) (line :: lines) =
      scanFrom (number + 1) (some (block.extend [line] braces)) lines := by
  simp [scanFrom, noComment, stays, OpenBlock.extend, blockText]

theorem scanFrom_closing {through rest : List Char}
    (noComment : startsComment (Text.trim line) = false)
    (closed : countBraces .outside block.braces line = .closed through rest) :
    scanFrom number (some block) (line :: lines) =
      (scanFrom (number + 1) none lines).map
        ({ line := block.line
           text := block.reversed.reverse ++ '\n' :: closingLine through rest } :: ·) := by
  simp [scanFrom, noComment, closed]

end Steps

theorem Closes.scanFrom_append {block : OpenBlock} {own : List (List Char)}
    {statement : Statement} (closes : Closes block own statement) (number : Nat)
    (lines : List (List Char)) :
    scanFrom number (some block) (own ++ lines) =
      (scanFrom (number + own.length) none lines).map (statement :: ·) := by
  induction closes generalizing number with
  | comment comment closes induction =>
      rw [List.cons_append, scanFrom_comment comment, induction,
        add_length_cons]
  | inner noComment stays closes induction =>
      rw [List.cons_append, scanFrom_inner noComment stays, induction,
        add_length_cons]
  | closing noComment closed => exact scanFrom_closing noComment closed

theorem Spans.scanFrom_append {number : Nat} {own : List (List Char)}
    {statement : Statement} (spans : Spans number own statement)
    (lines : List (List Char)) :
    scanFrom number none (own ++ lines) =
      (scanFrom (number + own.length) none lines).map (statement :: ·) := by
  cases spans with
  | plain solid noCondition => exact scanFrom_plain solid noCondition
  | closed solid condition closed => exact scanFrom_closed solid condition closed
  | block solid condition opened closes =>
      rw [List.cons_append, scanFrom_opening solid condition opened,
        closes.scanFrom_append, add_length_cons]

/-- Behind the lines of some statements, scanning goes on as if they had not been read. -/
theorem Scans.scanFrom_append {number : Nat} {front : List (List Char)}
    {statements : List Statement} (scans : Scans number front statements)
    (lines : List (List Char)) :
    scanFrom number none (front ++ lines) =
      (scanFrom (number + front.length) none lines).map (statements ++ ·) := by
  induction scans with
  | nil =>
      rename_i number
      rw [List.nil_append, List.length_nil, Nat.add_zero]
      cases scanFrom number none lines with
      | error failure => rfl
      | ok later => rfl
  | skip skipped scans induction =>
      rw [List.cons_append, scanFrom_skip skipped, induction,
        add_length_cons]
  | statement spans scans induction =>
      rw [List.append_assoc, spans.scanFrom_append, induction, List.length_append,
        Nat.add_assoc]
      cases scanFrom _ none lines with
      | error failure => rfl
      | ok later => rfl

theorem Spans.scans {number : Nat} {own : List (List Char)} {statement : Statement}
    (spans : Spans number own statement) : Scans number own [statement] := by
  have scans := Scans.statement spans .nil
  rwa [List.append_nil] at scans

/-- What a line can be outside of blocks. -/
theorem outside_cases (number : Nat) (line : List Char) :
    ¬IsSolid line ∨ (∃ statement, Spans number [line] statement) ∨
      ∃ braces, IsSolid line ∧ startsCondition (Text.trim line) = true ∧
        countBraces .outside Braces.start (Text.trim line) = .pending braces := by
  by_cases solid : IsSolid line
  · cases condition : startsCondition (Text.trim line) with
    | false => exact .inr (.inl ⟨_, .plain solid condition⟩)
    | true =>
        cases counted : countBraces .outside Braces.start (Text.trim line) with
        | closed through rest => exact .inr (.inl ⟨_, .closed solid condition counted⟩)
        | pending braces => exact .inr (.inr ⟨braces, solid, rfl, rfl⟩)
  · exact .inl solid

/-- What a line can be inside of a block. -/
theorem inside_cases (block : OpenBlock) (line : List Char) :
    startsComment (Text.trim line) = true ∨ (∃ statement, Closes block [line] statement) ∨
      ∃ braces, startsComment (Text.trim line) = false ∧
        countBraces .outside block.braces line = .pending braces := by
  cases comment : startsComment (Text.trim line) with
  | true => exact .inl rfl
  | false =>
      cases counted : countBraces .outside block.braces line with
      | closed through rest => exact .inr (.inl ⟨_, .closing comment counted⟩)
      | pending braces => exact .inr (.inr ⟨braces, rfl, rfl⟩)

/-- What a successful scan says about its lines, be they inside of a block or not. -/
private def Accounts (number : Nat) (lines : List (List Char))
    (statements : List Statement) : Option OpenBlock → Prop
  | none => Scans number lines statements
  | some block => ∃ own statement back later,
      lines = own ++ back ∧ statements = statement :: later ∧
        Closes block own statement ∧ Scans (number + own.length) back later

private theorem accounts_of_scanFrom {number : Nat} {block : Option OpenBlock}
    {lines : List (List Char)} {statements : List Statement}
    (scanned : scanFrom number block lines = .ok statements) :
    Accounts number lines statements block := by
  induction lines generalizing number block statements with
  | nil =>
      cases block with
      | none =>
          obtain rfl := Except.ok.inj scanned
          exact .nil
      | some block => cases scanned
  | cons line lines induction =>
      cases block with
      | none =>
          rcases outside_cases number line with skipped | ⟨statement, spans⟩ |
            ⟨braces, solid, condition, opened⟩
          · rw [scanFrom_skip skipped] at scanned
            exact .skip skipped (induction scanned)
          · rw [← List.singleton_append, spans.scanFrom_append] at scanned
            obtain ⟨later, scannedLater, rfl⟩ := map_eq_ok_iff.mp scanned
            exact .statement spans (induction scannedLater)
          · rw [scanFrom_opening solid condition opened] at scanned
            obtain ⟨own, statement, back, later, rfl, rfl, closes, scans⟩ :=
              induction scanned
            rw [← add_length_cons number line] at scans
            exact .statement (.block solid condition opened closes) scans
      | some block =>
          rcases inside_cases block line with comment | ⟨statement, closes⟩ |
            ⟨braces, noComment, stays⟩
          · rw [scanFrom_comment comment] at scanned
            obtain ⟨own, statement, back, later, rfl, rfl, closes, scans⟩ :=
              induction scanned
            rw [← add_length_cons number line] at scans
            exact ⟨line :: own, statement, back, later, rfl, rfl,
              .comment comment closes, scans⟩
          · rw [← List.singleton_append, closes.scanFrom_append] at scanned
            obtain ⟨later, scannedLater, rfl⟩ := map_eq_ok_iff.mp scanned
            exact ⟨[line], statement, lines, later, rfl, rfl, closes,
              induction scannedLater⟩
          · rw [scanFrom_inner noComment stays] at scanned
            obtain ⟨own, statement, back, later, rfl, rfl, closes, scans⟩ :=
              induction scanned
            rw [← add_length_cons number line] at scans
            exact ⟨line :: own, statement, back, later, rfl, rfl,
              .inner noComment stays closes, scans⟩

/-- Scanning succeeds exactly with the statements that the lines make up. -/
theorem scanFrom_eq_ok_iff {number : Nat} {lines : List (List Char)}
    {statements : List Statement} :
    scanFrom number none lines = .ok statements ↔ Scans number lines statements := by
  constructor
  · exact accounts_of_scanFrom
  · intro scans
    have whole := scans.scanFrom_append []
    rw [List.append_nil] at whole
    rw [whole]
    simp [scanFrom, Except.map]

theorem scanFrom_some_eq_ok_iff {number : Nat} {block : OpenBlock}
    {lines : List (List Char)} {statements : List Statement} :
    scanFrom number (some block) lines = .ok statements ↔
      ∃ own statement back later, lines = own ++ back ∧ statements = statement :: later ∧
        Closes block own statement ∧ Scans (number + own.length) back later := by
  constructor
  · exact accounts_of_scanFrom
  · intro accounts
    obtain ⟨own, statement, back, later, rfl, rfl, closes, scans⟩ := accounts
    rw [closes.scanFrom_append, scanFrom_eq_ok_iff.mpr scans]
    rfl

theorem Scans.append_iff {number : Nat} {front back : List (List Char)}
    {before statements : List Statement} (scans : Scans number front before) :
    Scans number (front ++ back) statements ↔
      ∃ later, Scans (number + front.length) back later ∧ before ++ later = statements := by
  simp only [← scanFrom_eq_ok_iff, scans.scanFrom_append, map_eq_ok_iff]

theorem Scans.exists_spans {number : Nat} {lines : List (List Char)}
    {before after : List Statement} {statement : Statement}
    (scans : Scans number lines (before ++ statement :: after)) :
    ∃ front own back, lines = front ++ (own ++ back) ∧ Scans number front before ∧
      Spans (number + front.length) own statement ∧
        Scans (number + front.length + own.length) back after := by
  generalize shape : before ++ statement :: after = statements at scans
  induction scans generalizing before with
  | nil => simp at shape
  | skip skipped scans induction =>
      obtain ⟨front, own, back, rfl, first, spans, later⟩ := induction shape
      rw [Nat.add_right_comm _ 1, Nat.add_assoc _ _ 1, ← List.length_cons] at spans later
      exact ⟨_ :: front, own, back, rfl, .skip skipped first, spans, later⟩
  | statement spans scans induction =>
      rename_i number own lines head statements
      cases before with
      | nil =>
          obtain ⟨rfl, rfl⟩ := List.cons.inj shape
          exact ⟨[], own, lines, rfl, .nil, spans, scans⟩
      | cons first before =>
          obtain ⟨rfl, rest⟩ := List.cons.inj shape
          obtain ⟨front, inner, back, rfl, earlier, innerSpans, later⟩ := induction rest
          rw [Nat.add_assoc number, ← List.length_append] at innerSpans later
          exact ⟨own ++ front, inner, back, by simp, .statement spans earlier, innerSpans,
            later⟩

theorem Closes.line_eq {block : OpenBlock} {own : List (List Char)}
    {statement : Statement} (closes : Closes block own statement) :
    statement.line = block.line := by
  induction closes with
  | comment comment closes induction => exact induction
  | inner noComment stays closes induction => exact induction
  | closing noComment closed => rfl

theorem Spans.line_eq {number : Nat} {own : List (List Char)} {statement : Statement}
    (spans : Spans number own statement) : statement.line = number := by
  cases spans with
  | plain => rfl
  | closed => rfl
  | block solid condition opened closes => exact closes.line_eq

theorem Spans.exists_solid {number : Nat} {own : List (List Char)} {statement : Statement}
    (spans : Spans number own statement) :
    ∃ line rest, own = line :: rest ∧ IsSolid line := by
  cases spans with
  | plain solid => exact ⟨_, _, rfl, solid⟩
  | closed solid => exact ⟨_, _, rfl, solid⟩
  | block solid => exact ⟨_, _, rfl, solid⟩

/-- The error for a block that starts on a line and is not closed. -/
def Error.unterminated (line : Nat) : Error :=
  { line, fault := .unterminatedBlock line }

theorem Closes.scanFrom_take {block : OpenBlock} {own : List (List Char)}
    {statement : Statement} (closes : Closes block own statement) {count : Nat}
    (short : count < own.length) (number : Nat) :
    scanFrom number (some block) (own.take count) = .error (.unterminated block.line) := by
  induction closes generalizing count number with
  | comment comment closes induction =>
      cases count with
      | zero => rfl
      | succ count =>
          rw [List.take_succ_cons, scanFrom_comment comment]
          exact induction (Nat.lt_of_succ_lt_succ short) _
  | inner noComment stays closes induction =>
      cases count with
      | zero => rfl
      | succ count =>
          rw [List.take_succ_cons, scanFrom_inner noComment stays]
          exact induction (Nat.lt_of_succ_lt_succ short) _
  | closing noComment closed =>
      obtain rfl : count = 0 := by simpa using short
      rfl

/-- A statement that is cut off in the middle is an open block. -/
theorem Spans.scanFrom_take {number : Nat} {own : List (List Char)}
    {statement : Statement} (spans : Spans number own statement) {count : Nat}
    (started : 0 < count) (short : count < own.length) :
    scanFrom number none (own.take count) = .error (.unterminated number) := by
  obtain ⟨count, rfl⟩ := Nat.exists_eq_succ_of_ne_zero (Nat.ne_of_gt started)
  cases spans with
  | plain => simp at short
  | closed => simp at short
  | block solid condition opened closes =>
      rw [List.take_succ_cons, scanFrom_opening solid condition opened]
      exact closes.scanFrom_take (Nat.lt_of_succ_lt_succ short) _

/-- The number of a line that is neither blank nor a comment, where the first line has
the given one. -/
def NamesSolid (number : Nat) (lines : List (List Char)) (named : Nat) : Prop :=
  ∃ front line back, lines = front ++ line :: back ∧ IsSolid line ∧
    named = number + front.length

theorem NamesSolid.cons {number named : Nat} {lines : List (List Char)}
    (names : NamesSolid (number + 1) lines named) (line : List Char) :
    NamesSolid number (line :: lines) named := by
  obtain ⟨front, solid, back, rfl, isSolid, rfl⟩ := names
  exact ⟨line :: front, solid, back, rfl, isSolid, (add_length_cons number line front).symm⟩

/-- Scanning fails only for a block that is not closed: either the one that is open
already, or one that starts on a later line. -/
theorem scanFrom_eq_error {number : Nat} {block : Option OpenBlock}
    {lines : List (List Char)} {error : Error}
    (failed : scanFrom number block lines = .error error) :
    ∃ line, error = .unterminated line ∧
      (block.map (·.line) = some line ∨ NamesSolid number lines line) := by
  induction lines generalizing number block with
  | nil =>
      cases block with
      | none => cases failed
      | some block =>
          obtain rfl := Except.error.inj failed
          exact ⟨block.line, rfl, .inl rfl⟩
  | cons line lines induction =>
      cases block with
      | none =>
          rcases outside_cases number line with skipped | ⟨statement, spans⟩ |
            ⟨braces, solid, condition, opened⟩
          · rw [scanFrom_skip skipped] at failed
            obtain ⟨named, rfl, stillOpen | names⟩ := induction failed
            · cases stillOpen
            · exact ⟨named, rfl, .inr (names.cons line)⟩
          · rw [← List.singleton_append, spans.scanFrom_append] at failed
            obtain ⟨named, rfl, stillOpen | names⟩ := induction (map_eq_error_iff.mp failed)
            · cases stillOpen
            · exact ⟨named, rfl, .inr (names.cons line)⟩
          · rw [scanFrom_opening solid condition opened] at failed
            obtain ⟨named, rfl, stillOpen | names⟩ := induction failed
            · obtain rfl := Option.some.inj stillOpen
              exact ⟨_, rfl, .inr ⟨[], line, lines, rfl, solid, rfl⟩⟩
            · exact ⟨named, rfl, .inr (names.cons line)⟩
      | some block =>
          rcases inside_cases block line with comment | ⟨statement, closes⟩ |
            ⟨braces, noComment, stays⟩
          · rw [scanFrom_comment comment] at failed
            obtain ⟨named, rfl, stillOpen | names⟩ := induction failed
            · exact ⟨named, rfl, .inl stillOpen⟩
            · exact ⟨named, rfl, .inr (names.cons line)⟩
          · rw [← List.singleton_append, closes.scanFrom_append] at failed
            obtain ⟨named, rfl, stillOpen | names⟩ := induction (map_eq_error_iff.mp failed)
            · cases stillOpen
            · exact ⟨named, rfl, .inr (names.cons line)⟩
          · rw [scanFrom_inner noComment stays] at failed
            obtain ⟨named, rfl, stillOpen | names⟩ := induction failed
            · exact ⟨named, rfl, .inl stillOpen⟩
            · exact ⟨named, rfl, .inr (names.cons line)⟩

theorem NamesSolid.exists_getElem? {lines : List (List Char)} {named : Nat}
    (names : NamesSolid 1 lines named) :
    1 ≤ named ∧ named ≤ lines.length ∧
      ∃ line, lines[named - 1]? = some line ∧ IsSolid line := by
  obtain ⟨front, line, back, rfl, solid, rfl⟩ := names
  refine ⟨Nat.le_add_right _ _, ?_, line, ?_, solid⟩
  · rw [List.length_append, List.length_cons]
    omega
  · rw [Nat.add_sub_cancel_left, List.getElem?_append_right (Nat.le_refl _), Nat.sub_self]
    rfl

end Rebac.Dsl
