import Rebac.Proofs.Dsl.Reading

/-!
# Where reading fails

An error names the line on which the first statement that cannot be applied starts.
The lines in front of it are read successfully, and whatever follows the statement
does not change the error.  Only a block that is never closed is reported before any
statement is applied.
-/

namespace Rebac.Dsl

/-- Whether lines end inside of a condition block. -/
def endsInBlock (lines : List (List Char)) : Bool :=
  match scanFrom 1 none lines with
  | .ok _ => false
  | .error _ => true

/-- The last line of the statement that starts on a line: the first line from there on
behind which no block is open. -/
def lastLine? (lines : List (List Char)) (first : Nat) : Option Nat :=
  (List.range' first (lines.length + 1 - first)).find? fun last =>
    !endsInBlock (lines.take last)

theorem endsInBlock_eq_false_iff {lines : List (List Char)} :
    endsInBlock lines = false ↔ ∃ statements, Scans 1 lines statements := by
  simp only [← scanFrom_eq_ok_iff]
  unfold endsInBlock
  cases scanFrom 1 none lines with
  | error failure => simp
  | ok statements => simp

theorem lastLine?_of_spans {front own : List (List Char)} {before : List Statement}
    {statement : Statement} (scans : Scans 1 front before)
    (spans : Spans (1 + front.length) own statement) (back : List (List Char)) :
    lastLine? (front ++ (own ++ back)) statement.line =
      some (front.length + own.length) := by
  have started : 0 < own.length := by
    obtain ⟨line, rest, rfl, solid⟩ := spans.exists_solid
    simp
  have whole : Scans 1 (front ++ own) (before ++ [statement]) :=
    scans.append_iff.mpr ⟨[statement], spans.scans, rfl⟩
  rw [lastLine?, spans.line_eq, List.find?_range'_eq_some]
  refine ⟨?_, ?_, ?_⟩
  · rw [← List.append_assoc, ← List.length_append, List.take_left]
    have complete : endsInBlock (front ++ own) = false :=
      endsInBlock_eq_false_iff.mpr ⟨_, whole⟩
    rw [complete]
    rfl
  · rw [List.mem_range'_1, List.length_append, List.length_append]
    omega
  · intro last first short
    obtain ⟨count, rfl⟩ := Nat.exists_eq_add_of_le (by omega : front.length ≤ last)
    have within : count < own.length := by omega
    have cut : (front ++ (own ++ back)).take (front.length + count) =
        front ++ own.take count := by
      rw [List.take_length_add_append, List.take_append_of_le_length (Nat.le_of_lt within)]
    have inside : endsInBlock (front ++ own.take count) = true := by
      unfold endsInBlock
      rw [scans.scanFrom_append, spans.scanFrom_take (by omega) within]
      rfl
    rw [cut, inside]
    rfl

theorem applyAll_append (draft : Draft) (front back : List Statement) :
    draft.applyAll (front ++ back) = draft.applyAll front >>= (·.applyAll back) := by
  induction front generalizing draft with
  | nil => rfl
  | cons statement front induction =>
      rw [List.cons_append, Draft.applyAll, Draft.applyAll]
      cases draft.apply statement with
      | error failure => rfl
      | ok next => exact induction next

/-- Statements fail at the first that cannot be applied behind those before it. -/
theorem exists_of_applyAll_eq_error {draft : Draft} {statements : List Statement}
    {error : Error} (failed : draft.applyAll statements = .error error) :
    ∃ before statement after middle, statements = before ++ statement :: after ∧
      draft.applyAll before = .ok middle ∧ middle.apply statement = .error error := by
  induction statements generalizing draft with
  | nil => cases failed
  | cons statement statements induction =>
      rw [Draft.applyAll] at failed
      cases applied : draft.apply statement with
      | error failure =>
          rw [applied] at failed
          obtain rfl := Except.error.inj failed
          exact ⟨[], statement, statements, draft, rfl, rfl, applied⟩
      | ok next =>
          rw [applied] at failed
          obtain ⟨before, first, after, middle, rfl, earlier, fails⟩ := induction failed
          refine ⟨statement :: before, first, after, middle, rfl, ?_, fails⟩
          rw [Draft.applyAll, applied]
          exact earlier

theorem line_of_apply_eq_error {draft : Draft} {statement : Statement} {error : Error}
    (failed : draft.apply statement = .error error) : error.line = statement.line := by
  unfold Draft.apply at failed
  split at failed
  · obtain rfl := Except.error.inj failed
    rfl
  · cases failed

theorem read_eq_error_iff {schemaVersion : String} {text : List Char} {error : Error} :
    read schemaVersion text = .error error ↔
      scanFrom 1 none (Text.lines text) = .error error ∨
        ∃ statements, Scans 1 (Text.lines text) statements ∧
          (Draft.start schemaVersion).applyAll statements = .error error := by
  simp only [← scanFrom_eq_ok_iff]
  unfold read scan
  cases scanFrom 1 none (Text.lines text) with
  | error failure => simp
  | ok statements => simp [map_eq_error_iff]

theorem read_eq_error_of_spans {schemaVersion : String} {text : List Char}
    {front own back : List (List Char)} {before : List Statement}
    {statement : Statement} {middle : Draft} {error : Error}
    (split : Text.lines text = front ++ (own ++ back)) (scans : Scans 1 front before)
    (spans : Spans (1 + front.length) own statement)
    (applied : (Draft.start schemaVersion).applyAll before = .ok middle)
    (failed : middle.apply statement = .error error)
    (complete : endsInBlock (Text.lines text) = false) :
    read schemaVersion text = .error error := by
  obtain ⟨statements, all⟩ := endsInBlock_eq_false_iff.mp complete
  have parts := all
  rw [split] at parts
  obtain ⟨fromThere, behind, rfl⟩ := scans.append_iff.mp parts
  obtain ⟨later, _, rfl⟩ := spans.scans.append_iff.mp behind
  refine read_eq_error_iff.mpr (.inr ⟨_, all, ?_⟩)
  rw [applyAll_append, applied]
  have stops : middle.applyAll (statement :: later) = .error error := by
    rw [Draft.applyAll, failed]
  exact stops

/-- An error names a line of the text that is neither blank nor a comment.  Unless it is
about a block that is never closed, the lines in front of that one are read
successfully, and every text that agrees up to the end of the statement there, and does
not leave a block open itself, fails in the same way. -/
theorem read_error_located {schemaVersion : String} {text : List Char} {error : Error}
    (failed : read schemaVersion text = .error error) :
    (1 ≤ error.line ∧ error.line ≤ (Text.lines text).length ∧
      ∃ line, (Text.lines text)[error.line - 1]? = some line ∧ IsSolid line) ∧
    ((∀ start, error.fault ≠ .unterminatedBlock start) →
      (∃ model, read schemaVersion (Text.takeLines (error.line - 1) text) = .ok model) ∧
      ∃ last, lastLine? (Text.lines text) error.line = some last ∧
        ∀ other, (Text.lines other).take last = (Text.lines text).take last →
          endsInBlock (Text.lines other) = false →
          read schemaVersion other = .error error) := by
  rcases read_eq_error_iff.mp failed with unscanned | ⟨statements, scans, notApplied⟩
  · obtain ⟨line, rfl, stillOpen | names⟩ := scanFrom_eq_error unscanned
    · cases stillOpen
    · exact ⟨names.exists_getElem?, fun closed => absurd rfl (closed line)⟩
  · obtain ⟨before, statement, after, middle, rfl, applied, fails⟩ :=
      exists_of_applyAll_eq_error notApplied
    obtain ⟨front, own, back, split, earlier, spans, _⟩ := scans.exists_spans
    have sameLine : error.line = statement.line := line_of_apply_eq_error fails
    have position : error.line = 1 + front.length := sameLine.trans spans.line_eq
    refine ⟨?_, fun _ => ⟨⟨middle.model, ?_⟩, front.length + own.length, ?_, ?_⟩⟩
    · obtain ⟨line, rest, rfl, solid⟩ := spans.exists_solid
      have names : NamesSolid 1 (Text.lines text) error.line :=
        ⟨front, line, rest ++ back, split, solid, position⟩
      exact names.exists_getElem?
    · have cut : Text.lines (Text.takeLines (error.line - 1) text) = front := by
        rw [Text.lines_takeLines, split, position, Nat.add_sub_cancel_left, List.take_left]
      refine read_eq_ok_iff.mpr ⟨middle, ⟨before, ?_, applied⟩, rfl⟩
      rw [cut]
      exact scanFrom_eq_ok_iff.mpr earlier
    · rw [split, sameLine]
      exact lastLine?_of_spans earlier spans back
    · intro other agrees complete
      have start : (Text.lines other).take (front.length + own.length) = front ++ own := by
        rw [agrees, split, ← List.append_assoc, ← List.length_append, List.take_left]
      have parts : Text.lines other =
          front ++ (own ++ (Text.lines other).drop (front.length + own.length)) := by
        rw [← List.append_assoc, ← start, List.take_append_drop]
      exact read_eq_error_of_spans parts earlier spans applied fails complete

/-- A condition in the middle of a text that uses a parameter it does not declare. -/
def undeclared : List Char :=
  "type user\n\ncondition few(count: int) \x7b\n  # \x7d\n  size < 9\n\x7d\ntype doc\n".toList

def undeclaredError : Error :=
  { line := 3, fault := .condition (.expression "few" (.undeclared "size")) }

theorem read_error_located_undeclared :
    read "1.1" undeclared = .error undeclaredError ∧
      (∃ model, read "1.1" (Text.takeLines 2 undeclared) = .ok model) ∧
      ∃ last, lastLine? (Text.lines undeclared) 3 = some last ∧
        ∀ other, (Text.lines other).take last = (Text.lines undeclared).take last →
          endsInBlock (Text.lines other) = false →
          read "1.1" other = .error undeclaredError := by
  have failed : read "1.1" undeclared = .error undeclaredError := by decide +kernel
  have closed : ∀ start, undeclaredError.fault ≠ .unterminatedBlock start := by
    intro start
    simp [undeclaredError]
  exact ⟨failed, (read_error_located failed).2 closed⟩

end Rebac.Dsl
