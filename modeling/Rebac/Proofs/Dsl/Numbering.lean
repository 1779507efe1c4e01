import Rebac.Proofs.Dsl.Location
import Rebac.Proofs.Dsl.Progress

/-!
# Line numbers

Scanning and applying statements use the numbers of lines only to say where a statement
starts.  So the same lines with other numbers are scanned into the same statements, and
what fails fails in the same way, under the other numbers.
-/

namespace Rebac.Dsl

section Renumbering

variable (count added : Nat)

/-- The number of a line once lines are added behind the first ones. -/
def renumber (line : Nat) : Nat :=
  if line ≤ count then line else line + added

def Statement.renumber (statement : Statement) : Statement :=
  { statement with line := Dsl.renumber count added statement.line }

def OpenBlock.renumber (block : OpenBlock) : OpenBlock :=
  { block with line := Dsl.renumber count added block.line }

/-- A fault of the same kind: only a block that is never closed names a line. -/
def Fault.renumber : Fault → Fault
  | .unterminatedBlock start => .unterminatedBlock (Dsl.renumber count added start)
  | fault => fault

def Error.renumber (error : Error) : Error :=
  { line := Dsl.renumber count added error.line
    fault := error.fault.renumber count added }

def Progress.renumber (found : Progress) : Progress :=
  { statements := found.statements.map (·.renumber count added)
    block := found.block.map (·.renumber count added) }

/-- The outcome of scanning with other numbers. -/
def renumberScan (scanned : Except Error (List Statement)) :
    Except Error (List Statement) :=
  (scanned.map (·.map (·.renumber count added))).mapError (·.renumber count added)

end Renumbering

variable {count added : Nat}

theorem renumber_of_le {line : Nat} (early : line ≤ count) :
    renumber count added line = line :=
  if_pos early

theorem renumber_of_lt {line : Nat} (late : count < line) :
    renumber count added line = line + added :=
  if_neg (Nat.not_le_of_lt late)

theorem advance_renumber (count added number : Nat) (block : Option OpenBlock) (line : List Char) :
    advance (renumber count added number) (block.map (·.renumber count added)) line =
      (advance number block line).renumber count added := by
  cases block with
  | some block =>
      cases comment : startsComment (Text.trim line) with
      | true =>
          rw [Option.map_some, advance_comment comment, advance_comment comment]
          rfl
      | false =>
          have sameBraces : (block.renumber count added).braces = block.braces := rfl
          cases counted : countBraces .outside block.braces line with
          | pending braces =>
              rw [Option.map_some, advance_inner comment counted,
                advance_inner comment (sameBraces ▸ counted)]
              rfl
          | closed through rest =>
              rw [Option.map_some, advance_closing comment counted,
                advance_closing comment (sameBraces ▸ counted)]
              rfl
  | none =>
      rw [Option.map_none]
      rcases outside_cases number line with skipped | ⟨statement, spans⟩ |
        ⟨braces, solid, condition, opened⟩
      · rw [advance_skip skipped, advance_skip skipped]
        rfl
      · cases spans with
        | plain solid noCondition =>
            rw [advance_plain solid noCondition, advance_plain solid noCondition]
            rfl
        | closed solid condition closed =>
            rw [advance_closed solid condition closed, advance_closed solid condition closed]
            rfl
        | block solid condition opened closes => cases closes
      · rw [advance_opening solid condition opened, advance_opening solid condition opened]
        rfl

theorem renumberScan_append (statements : List Statement)
    (later : Except Error (List Statement)) :
    renumberScan count added (later.map (statements ++ ·)) =
      (renumberScan count added later).map
        (statements.map (·.renumber count added) ++ ·) := by
  cases later with
  | error failure => rfl
  | ok found => exact congrArg Except.ok List.map_append

/-- Lines behind those that keep their numbers are scanned under the new numbers. -/
theorem scanFrom_renumber (added : Nat) {number : Nat} (late : count < number)
    (block : Option OpenBlock) (lines : List (List Char)) :
    scanFrom (number + added) (block.map (·.renumber count added)) lines =
      renumberScan count added (scanFrom number block lines) := by
  induction lines generalizing number block with
  | nil => cases block <;> rfl
  | cons line lines induction =>
      have first := advance_renumber count added number block line
      rw [renumber_of_lt late] at first
      rw [scanFrom_cons, scanFrom_cons, first, renumberScan_append, Nat.add_right_comm]
      exact congrArg (Except.map _) (induction (Nat.lt_succ_of_lt late) _)

/-- Whether statements and blocks start in front of a line. -/
structure Progress.IsBefore (found : Progress) (number : Nat) : Prop where
  statements : ∀ statement ∈ found.statements, statement.line < number
  block : ∀ opened, found.block = some opened → opened.line < number

theorem isBefore_advance {number : Nat} {block : Option OpenBlock}
    (earlier : ∀ opened, block = some opened → opened.line < number) (line : List Char) :
    (advance number block line).IsBefore (number + 1) := by
  have here : number < number + 1 := Nat.lt_succ_self number
  cases block with
  | some block =>
      have before : block.line < number + 1 := Nat.lt_succ_of_lt (earlier block rfl)
      rcases inside_cases block line with comment | ⟨statement, closes⟩ |
        ⟨braces, noComment, stays⟩
      · rw [advance_comment comment]
        exact ⟨by simp, by simpa using before⟩
      · cases closes with
        | comment comment closes => cases closes
        | inner noComment stays closes => cases closes
        | closing noComment closed =>
            rw [advance_closing noComment closed]
            exact ⟨by simpa using before, by simp⟩
      · rw [advance_inner noComment stays]
        exact ⟨by simp, by simpa [OpenBlock.extend] using before⟩
  | none =>
      rcases outside_cases number line with skipped | ⟨statement, spans⟩ |
        ⟨braces, solid, condition, opened⟩
      · rw [advance_skip skipped]
        exact ⟨by simp, by simp⟩
      · cases spans with
        | plain solid noCondition =>
            rw [advance_plain solid noCondition]
            exact ⟨by simp, by simp⟩
        | closed solid condition closed =>
            rw [advance_closed solid condition closed]
            exact ⟨by simp, by simp⟩
        | block solid condition opened closes => cases closes
      · rw [advance_opening solid condition opened]
        exact ⟨by simp, by simp⟩

theorem isBefore_progress {number : Nat} {block : Option OpenBlock}
    (earlier : ∀ opened, block = some opened → opened.line < number)
    (lines : List (List Char)) :
    (progress number block lines).IsBefore (number + lines.length) := by
  induction lines generalizing number block with
  | nil => exact ⟨by simp [progress], earlier⟩
  | cons line lines induction =>
      have first := isBefore_advance earlier line
      have later := induction first.block
      rw [add_length_cons]
      refine ⟨?_, later.block⟩
      intro statement member
      rcases List.mem_append.mp member with inFirst | inLater
      · exact Nat.lt_of_lt_of_le (first.statements statement inFirst) (Nat.le_add_right _ _)
      · exact later.statements statement inLater

theorem Progress.IsBefore.renumber_eq {found : Progress} (added : Nat)
    (before : found.IsBefore (count + 1)) : found.renumber count added = found := by
  obtain ⟨statements, block⟩ := found
  have sameStatements : statements.map (·.renumber count added) = statements := by
    refine List.map_congr_left (fun statement member => ?_) |>.trans (List.map_id statements)
    have early := Nat.le_of_lt_succ (before.statements statement member)
    simp [Statement.renumber, renumber_of_le early]
  have sameBlock : block.map (·.renumber count added) = block := by
    cases block with
    | none => rfl
    | some opened =>
        have early := Nat.le_of_lt_succ (before.block opened rfl)
        simp [OpenBlock.renumber, renumber_of_le early]
  rw [Progress.renumber, sameStatements, sameBlock]

/-- A statement never fails for want of a closing brace. -/
theorem renumber_fault_of_applyText (count added : Nat) {draft : Draft} {text : List Char} {fault : Fault}
    (failed : draft.applyText text = .error fault) :
    fault.renumber count added = fault := by
  -- One case for each way in which a statement ends; all faults but one keep their text.
  unfold Draft.applyText Draft.addCondition Draft.setSchema Draft.openType Draft.define at failed
  simp only at failed
  repeat' split at failed
  all_goals
    cases failed
    try rfl

theorem applyAll_renumber (draft : Draft) (statements : List Statement) :
    draft.applyAll (statements.map (·.renumber count added)) =
      (draft.applyAll statements).mapError (·.renumber count added) := by
  induction statements generalizing draft with
  | nil => rfl
  | cons statement statements induction =>
      rw [List.map_cons, Draft.applyAll, Draft.applyAll, Draft.apply, Draft.apply]
      have sameText : (statement.renumber count added).text = statement.text := rfl
      rw [sameText]
      cases applied : draft.applyText statement.text with
      | error fault =>
          have same := renumber_fault_of_applyText count added applied
          simp [Error.renumber, same, Statement.renumber]
      | ok next => exact induction next

/-- Read a text that is cut into lines. -/
def readLines (schemaVersion : String) (lines : List (List Char)) : Except Error Model :=
  match scanFrom 1 none lines with
  | .error error => .error error
  | .ok statements => ((Draft.start schemaVersion).applyAll statements).map (·.model)

theorem read_eq_readLines (schemaVersion : String) (text : List Char) :
    read schemaVersion text = readLines schemaVersion (Text.lines text) := rfl

/-- Lines that are scanned under other numbers are read with the same outcome, and an
error has its number changed. -/
theorem readLines_of_renumberScan {schemaVersion : String} {lines others : List (List Char)}
    (scanned : scanFrom 1 none others = renumberScan count added (scanFrom 1 none lines)) :
    readLines schemaVersion others =
      (readLines schemaVersion lines).mapError (·.renumber count added) := by
  unfold readLines
  rw [scanned]
  cases scanFrom 1 none lines with
  | error failure => rfl
  | ok statements =>
      simp only [renumberScan, Except.map, mapError_ok, applyAll_renumber]
      cases (Draft.start schemaVersion).applyAll statements with
      | error failure => rfl
      | ok final => rfl

end Rebac.Dsl
