import Rebac.Proofs.Dsl.Commented
import Rebac.Proofs.Dsl.Numbering

/-!
# Comment lines

A line that holds only a comment is dropped wherever it stands, inside of a block as well
as outside.  A text with such a line inserted is read with the same outcome, except that an
error behind the line names the next number.
-/

namespace Rebac.Dsl

/-- A line that holds only a comment, which blanks may precede. -/
def IsCommentLine (line : List Char) : Prop :=
  '\n' ∉ line ∧ ∃ blanks comment, Text.AllBlank blanks ∧ line = blanks ++ '#' :: comment

/-- A text with a line inserted behind a number of its lines.  If the text does not end
with a line feed, one is needed to insert a line behind the last. -/
inductive InsertsLine (line : List Char) : Nat → List Char → List Char → Prop where
  | between (front back : List Char) :
      Text.IsComplete front →
      InsertsLine line (Text.lines front).length (front ++ back)
        (front ++ (line ++ '\n' :: back))
  | last {text : List Char} :
      Text.IsComplete text →
      InsertsLine line (Text.lines text).length text (text ++ line)
  | behind {text ending : List Char} :
      ¬Text.IsComplete text →
      ending = [] ∨ ending = ['\n'] →
      InsertsLine line (Text.lines text).length text (text ++ '\n' :: (line ++ ending))

theorem startsComment_of_blank {blanks : List Char} (blank : Text.AllBlank blanks)
    (comment : List Char) : startsComment (Text.trim (blanks ++ '#' :: comment)) = true := by
  have stop : Text.trimStart ('#' :: comment) = '#' :: comment :=
    List.dropWhile_cons_of_neg (by decide)
  rw [startsComment_trim, Text.trimStart_blank_append blank, stop]
  rfl

variable {line : List Char}

theorem IsCommentLine.lines_append (isComment : IsCommentLine line) (back : List Char) :
    ∃ kept, startsComment (Text.trim kept) = true ∧
      Text.lines (line ++ '\n' :: back) = kept :: Text.lines back := by
  obtain ⟨unbroken, blanks, comment, blank, rfl⟩ := isComment
  obtain ⟨rest, kept⟩ := Text.exists_dropReturn (by decide : '#' ≠ '\r') blanks comment
  refine ⟨blanks ++ '#' :: rest, startsComment_of_blank blank rest, ?_⟩
  rw [Text.lines_append_line unbroken, kept]

theorem IsCommentLine.lines_eq (isComment : IsCommentLine line) :
    startsComment (Text.trim line) = true ∧ Text.lines line = [line] := by
  obtain ⟨unbroken, blanks, comment, blank, rfl⟩ := isComment
  exact ⟨startsComment_of_blank blank comment, Text.lines_of_not_mem unbroken (by simp)⟩

/-- A comment line adds nothing, whether a block is open or not. -/
theorem advance_commentLine (comment : startsComment (Text.trim line) = true) (number : Nat)
    (block : Option OpenBlock) :
    advance number block line = { statements := [], block } := by
  cases block with
  | some block => exact advance_comment comment
  | none => exact advance_skip fun solid => by simp [solid.2] at comment

/-- Lines with a comment line among them are read like the others. -/
theorem readLines_insert (schemaVersion : String)
    (comment : startsComment (Text.trim line) = true) (front back : List (List Char)) :
    readLines schemaVersion (front ++ line :: back) =
      (readLines schemaVersion (front ++ back)).mapError (·.renumber front.length 1) := by
  apply readLines_of_renumberScan
  have before : (progress 1 none front).IsBefore (1 + front.length) :=
    isBefore_progress (by simp) front
  rw [Nat.add_comm] at before
  have same := before.renumber_eq 1
  have later := scanFrom_renumber 1
    (Nat.lt_add_of_pos_left Nat.one_pos : front.length < 1 + front.length)
    (progress 1 none front).block back
  have sameStatements := congrArg Progress.statements same
  have sameBlock := congrArg Progress.block same
  simp only [Progress.renumber] at sameStatements sameBlock
  rw [scanFrom_append, scanFrom_append, renumberScan_append, sameStatements, ← later,
    sameBlock, scanFrom_cons, advance_commentLine comment]
  exact congrArg (Except.map _) (map_self _)

theorem Condition.ofText_append_blank {blanks : List Char} (blank : Text.AllBlank blanks)
    (text : List Char) : Condition.ofText (text ++ blanks) = Condition.ofText text := by
  have same : Text.trim (text ++ blanks) = Text.trim text := by
    simpa using Text.trim_between Text.allBlank_nil blank text
  unfold Condition.ofText
  rw [same]

theorem applyText_append_blank {text : List Char} (condition : startsCondition text = true)
    {blank : Char} (isBlank : Text.isBlank blank = true) (draft : Draft) :
    draft.applyText (text ++ [blank]) = draft.applyText text := by
  have longer : startsCondition (text ++ [blank]) = true := by
    rw [startsCondition_append isBlank, condition]
  have same := Condition.ofText_append_blank (Text.allBlank_singleton isBlank) text
  simp only [Draft.applyText, condition, longer, if_true, Draft.addCondition, same]

theorem isBare_append_blank {blank : Char} (isBlank : Text.isBlank blank = true)
    (rest : List Char) : isBare (rest ++ [blank]) = isBare rest := by
  by_cases filled : Text.trimStart rest = []
  · obtain ⟨blanks, restBlank, split⟩ := Text.exists_trimStart rest
    rw [filled, List.append_nil] at split
    subst split
    have nothing : Text.trimStart (rest ++ [blank]) = [] := by
      rw [Text.trimStart_blank_append restBlank]
      exact List.dropWhile_cons_of_pos isBlank
    rw [isBare, isBare, nothing, filled]
  · have nonempty : (Text.trimStart rest).isEmpty = false := by simpa using filled
    have longer : (Text.trimStart rest ++ [blank]).isEmpty = false := by simp
    rw [isBare, isBare, Text.trimStart_append_of_ne_nil filled, startsComment_append filled,
      nonempty, longer]

theorem advance_append_return {block : Option OpenBlock} (keyword : HasKeyword block)
    (number : Nat) (line : List Char) :
    (advance number block (line ++ ['\r'])).block.map (·.line) =
        (advance number block line).block.map (·.line) ∧
      ∀ draft : Draft, draft.applyAll (advance number block (line ++ ['\r'])).statements =
        draft.applyAll (advance number block line).statements := by
  have blank : Text.AllBlank ['\r'] := by decide
  have trimmed : Text.trim (line ++ ['\r']) = Text.trim line := by
    simpa using Text.trim_between Text.allBlank_nil blank line
  cases block with
  | none =>
      have same : advance number none (line ++ ['\r']) = advance number none line := by
        simp only [advance, trimmed]
      rw [same]
      exact ⟨rfl, fun _ => rfl⟩
  | some block =>
      rcases inside_cases block line with comment | ⟨statement, closes⟩ |
        ⟨braces, noComment, stays⟩
      · rw [advance_comment comment, advance_comment (by rwa [trimmed])]
        exact ⟨rfl, fun _ => rfl⟩
      · cases closes with
        | comment comment closes => cases closes
        | inner noComment stays closes => cases closes
        | closing noComment closed =>
            rename_i through rest
            have closedToo := countBraces_append_of_closed closed ['\r']
            rw [advance_closing noComment closed,
              advance_closing (by rwa [trimmed]) closedToo]
            refine ⟨rfl, fun draft => ?_⟩
            have condition : startsCondition
                (block.reversed.reverse ++ '\n' :: closingLine through rest) = true := by
              rw [startsCondition_append (by decide)]
              exact keyword block rfl
            cases bare : isBare rest with
            | true =>
                rw [closingLine_of_isBare (by rwa [isBare_append_blank (by decide)]),
                  closingLine_of_isBare bare]
            | false =>
                rw [closingLine_of_not_isBare bare] at condition ⊢
                rw [closingLine_of_not_isBare (by rwa [isBare_append_blank (by decide)])]
                have same := applyText_append_blank condition
                  (by decide : Text.isBlank '\r' = true)
                simp only [List.append_assoc, List.cons_append] at same
                simp only [Draft.applyAll, Draft.apply, same]
      · obtain ⟨later, opened⟩ | ⟨through, rest, brace, split, _⟩ :=
          countBraces_append_of_pending stays ['\r']
        · rw [advance_inner noComment stays, advance_inner (by rwa [trimmed]) opened]
          exact ⟨rfl, fun _ => rfl⟩
        · have inReturn : '\x7d' ∈ ['\r'] := split ▸ List.mem_append_left rest brace
          exact absurd inReturn (by decide)

theorem readLines_concat (schemaVersion : String) (front : List (List Char))
    (line : List Char) :
    readLines schemaVersion (front ++ [line]) =
      match (advance (1 + front.length) (progress 1 none front).block line).block.map (·.line) with
      | some start => .error (.unterminated start)
      | none =>
          ((Draft.start schemaVersion).applyAll (progress 1 none front).statements >>=
            (·.applyAll (advance (1 + front.length) (progress 1 none front).block
              line).statements)).map (·.model) := by
  unfold readLines
  rw [scanFrom_append, scanFrom_cons, map_append_map]
  cases (advance (1 + front.length) (progress 1 none front).block line).block with
  | some block => rfl
  | none =>
      simp only [scanFrom, Except.map, Option.map_none, List.append_nil]
      rw [applyAll_append]

theorem readLines_concat_return (schemaVersion : String) (front : List (List Char))
    (line : List Char) :
    readLines schemaVersion (front ++ [line ++ ['\r']]) =
      readLines schemaVersion (front ++ [line]) := by
  have keyword : HasKeyword (progress 1 none front).block :=
    hasKeyword_progress (by simp [HasKeyword]) 1 front
  obtain ⟨sameBlock, sameStatements⟩ :=
    advance_append_return keyword (1 + front.length) line
  rw [readLines_concat, readLines_concat, sameBlock]
  simp only [sameStatements]

theorem readLines_concat_dropReturn (schemaVersion : String) (front : List (List Char))
    (line : List Char) :
    readLines schemaVersion (front ++ [(Text.dropReturn line.reverse).reverse]) =
      readLines schemaVersion (front ++ [line]) := by
  rcases List.eq_nil_or_concat line with rfl | ⟨start, last, rfl⟩
  · rfl
  · rw [List.concat_eq_append, List.reverse_append, List.reverse_singleton,
      List.singleton_append]
    by_cases returns : last = '\r'
    · subst returns
      rw [readLines_concat_return]
      simp [Text.dropReturn]
    · rw [Text.dropReturn_cons returns]
      simp

/-- A text with a comment line inserted is read with the same outcome.  Its errors are of
the same kind, and name the next line if the statement at fault starts behind the comment
line. -/
theorem read_insert_comment (schemaVersion : String) {text other : List Char} {count : Nat}
    (isComment : IsCommentLine line) (inserts : InsertsLine line count text other) :
    read schemaVersion other =
      (read schemaVersion text).mapError (·.renumber count 1) := by
  rw [read_eq_readLines, read_eq_readLines]
  cases inserts with
  | between front back complete =>
      obtain ⟨kept, comment, lines⟩ := isComment.lines_append back
      rw [complete.lines_append, complete.lines_append, lines]
      exact readLines_insert schemaVersion comment _ _
  | last complete =>
      obtain ⟨comment, single⟩ := isComment.lines_eq
      have inserted := readLines_insert schemaVersion comment (Text.lines text) []
      rw [List.append_nil] at inserted
      rw [complete.lines_append, single]
      exact inserted
  | @behind _ ending incomplete closing =>
      obtain ⟨front, tail, rfl, complete, unbroken⟩ := Text.exists_isComplete text
      have filled : tail ≠ [] := by
        rintro rfl
        exact incomplete (by rwa [List.append_nil])
      obtain ⟨kept, comment, single⟩ : ∃ kept, startsComment (Text.trim kept) = true ∧
          Text.lines (line ++ ending) = [kept] := by
        rcases closing with rfl | rfl
        · obtain ⟨comment, single⟩ := isComment.lines_eq
          exact ⟨line, comment, by rwa [List.append_nil]⟩
        · exact isComment.lines_append []
      have lines : Text.lines (front ++ tail) = Text.lines front ++ [tail] := by
        rw [complete.lines_append, Text.lines_of_not_mem unbroken filled]
      have inserted := readLines_insert schemaVersion comment
        (Text.lines front ++ [(Text.dropReturn tail.reverse).reverse]) []
      rw [List.append_assoc, complete.lines_append, Text.lines_append_line unbroken, single,
        lines, List.append_cons (Text.lines front), inserted, List.append_nil,
        readLines_concat_dropReturn]
      simp

/-- A text whose last line is no statement. -/
def strayText : List Char :=
  "type user\ncondition c(a: int) \x7b\n a > 1\n\x7d\n?".toList

/-- The same text with a comment in its block that holds a brace and a quote. -/
def strayTextCommented : List Char :=
  "type user\ncondition c(a: int) \x7b\n\t# \x7d '\n a > 1\n\x7d\n?".toList

theorem read_insert_comment_stray :
    (IsCommentLine "\t# \x7d '".toList ∧
      InsertsLine "\t# \x7d '".toList 2 strayText strayTextCommented) ∧
      read "1.1" strayTextCommented =
        .error { line := 6, fault := .unexpectedStatement (.unknown "?") } := by
  have isComment : IsCommentLine "\t# \x7d '".toList :=
    ⟨by decide, ['\t'], " \x7d '".toList, by decide, rfl⟩
  have inserts : InsertsLine "\t# \x7d '".toList 2 strayText strayTextCommented :=
    .between "type user\ncondition c(a: int) \x7b\n".toList " a > 1\n\x7d\n?".toList
      (.inr ⟨"type user\ncondition c(a: int) \x7b".toList, rfl⟩)
  have failed : read "1.1" strayText =
      .error { line := 5, fault := .unexpectedStatement (.unknown "?") } := by decide +kernel
  have inserted := read_insert_comment "1.1" isComment inserts
  rw [failed] at inserted
  exact ⟨⟨isComment, inserts⟩, inserted⟩

end Rebac.Dsl
