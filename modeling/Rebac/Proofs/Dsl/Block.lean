import Rebac.Proofs.Dsl.Draft

/-!
# Reading written condition blocks

A written condition is read back as itself if its expression fits a block.  If
the reading of a text that starts with a written condition has this condition at
its place, then the expression does fit.
-/

namespace Rebac

namespace Condition

/-- What the head of a written block may hold in front of its brace. -/
def isHeadCharacter (character : Char) : Bool :=
  isIdentifierCharacter character || " :,()".toList.contains character

theorem isHeadCharacter_of_identifier {name : String}
    (identifier : isIdentifier name = true) {character : Char}
    (member : character ∈ name.toList) : isHeadCharacter character = true := by
  simp [isHeadCharacter, isIdentifierCharacter_of_mem identifier member]

theorem isHeadCharacter_of_parameters {parameters : List Parameter}
    (identifiers : ∀ parameter ∈ parameters, isIdentifier parameter.name = true)
    {character : Char} (member : character ∈ parametersText parameters) :
    isHeadCharacter character = true := by
  cases outside : isHeadCharacter character with
  | true => rfl
  | false =>
      simp only [isHeadCharacter, Bool.or_eq_false_iff] at outside
      obtain ⟨noIdentifier, noMark⟩ := outside
      have different : character ≠ ' ' ∧ character ≠ ':' ∧ character ≠ ',' := by
        refine ⟨?_, ?_, ?_⟩ <;> rintro rfl <;> exact absurd noMark (by decide)
      exact absurd member (not_mem_parametersText identifiers character noIdentifier
        different.2.1 different.1 different.2.2)

theorem exists_headText {condition : Condition}
    (identifier : isIdentifier condition.name = true)
    (fresh : AreFresh [] condition.parameters) :
    ∃ start, condition.headText = start ++ ['\x7b'] ∧
      ∀ character ∈ start, isHeadCharacter character = true := by
  refine ⟨"condition ".toList ++ condition.name.toList ++ "(".toList ++
    parametersText condition.parameters ++ ") ".toList, ?_, ?_⟩
  · unfold headText
    simp only [List.append_assoc]
    rfl
  · have keyword : "condition ".toList.all isHeadCharacter = true := by decide
    have opening : "(".toList.all isHeadCharacter = true := by decide
    have closing : ") ".toList.all isHeadCharacter = true := by decide
    intro character member
    rcases List.mem_append.mp member with member | inClosing
    · rcases List.mem_append.mp member with member | inParameters
      · rcases List.mem_append.mp member with member | inOpening
        · rcases List.mem_append.mp member with inKeyword | inName
          · exact List.all_eq_true.mp keyword character inKeyword
          · exact isHeadCharacter_of_identifier identifier inName
        · exact List.all_eq_true.mp opening character inOpening
      · exact isHeadCharacter_of_parameters fresh.identifiers inParameters
    · exact List.all_eq_true.mp closing character inClosing

/-- The lines of an expression inside of a written block. -/
def bodyLines (condition : Condition) : List (List Char) :=
  ("  ".toList ++ condition.expression.toList).splitOn '\n'

/-- The lines of a written block, behind an empty one. -/
def writtenLines (condition : Condition) : List (List Char) :=
  [] :: condition.headText :: (condition.bodyLines ++ [['\x7d']])

theorem not_mem_headText {condition : Condition}
    (identifier : isIdentifier condition.name = true)
    (fresh : AreFresh [] condition.parameters) {character : Char}
    (outside : isHeadCharacter character = false)
    (noBrace : character ≠ '\x7b') : character ∉ condition.headText := by
  obtain ⟨start, shape, inside⟩ := exists_headText identifier fresh
  intro member
  rw [shape] at member
  rcases List.mem_append.mp member with inStart | last
  · rw [inside character inStart] at outside
    cases outside
  · exact noBrace (List.mem_singleton.mp last)

theorem lines_toText {condition : Condition} (written : condition.IsWellFormed)
    (noReturn : '\r' ∉ condition.expression.toList) (rest : List Char) :
    Text.lines ('\n' :: (condition.toText ++ rest)) =
      condition.writtenLines ++ Text.lines rest := by
  have headNoBreak := not_mem_headText written.identifier written.fresh
    (by decide : isHeadCharacter '\n' = false) (by decide)
  have headNoReturn := not_mem_headText written.identifier written.fresh
    (by decide : isHeadCharacter '\r' = false) (by decide)
  have layout : '\n' :: (condition.toText ++ rest) =
      [] ++ '\n' :: (condition.headText ++ '\n' ::
        (("  ".toList ++ condition.expression.toList) ++ '\n' ::
          (['\x7d'] ++ '\n' :: rest))) := by
    rw [toText_eq_headText]
    simp only [List.append_assoc]
    rfl
  rw [layout, Text.lines_append_single (by simp) (by simp),
    Text.lines_append_single headNoReturn headNoBreak,
    Text.lines_append_break (by simpa using noReturn),
    Text.lines_append_single (by decide) (by decide)]
  simp [writtenLines, bodyLines]

theorem writtenLines_append (condition : Condition) (lines : List (List Char)) :
    condition.writtenLines ++ lines =
      [] :: condition.headText :: (condition.bodyLines ++ ['\x7d'] :: lines) := by
  simp [writtenLines]

end Condition

namespace Dsl

variable {condition : Condition} {number : Nat} {lines : List (List Char)}
  {draft next final : Draft}

theorem startsCondition_headText (condition : Condition) (body : List Char) :
    startsCondition (condition.headText ++ body) = true := by
  have shape : condition.headText ++ body = "condition".toList ++ ' ' ::
      (condition.name.toList ++ "(".toList ++
        Condition.parametersText condition.parameters ++ ") \x7b".toList ++ body) := by
    unfold Condition.headText
    simp only [List.append_assoc]
    rfl
  rw [shape, startsCondition, afterKeyword?, Text.isPrefixOf?_append]
  rfl

theorem not_comment_of_startsCondition {text : List Char}
    (opens : startsCondition text = true) : startsComment text = false := by
  unfold startsComment
  split
  · rename_i rest
    have other : startsCondition ('#' :: rest) = false := rfl
    rw [other] at opens
    cases opens
  · rfl

theorem bracesThrough?_headText (identifier : isIdentifier condition.name = true)
    (fresh : Condition.AreFresh [] condition.parameters) (body : List Char) :
    bracesThrough? true .outside Braces.start (condition.headText ++ body) =
      bracesThrough? false .outside Braces.entered body := by
  obtain ⟨start, shape, inside⟩ := Condition.exists_headText identifier fresh
  have inert : ∀ character ∈ start, IsInert character := fun character member =>
    isInert_of_class Condition.isHeadCharacter (by decide) (inside character member)
  have opened : ∀ blank, bracesThrough? blank .outside Braces.start ('\x7b' :: body) =
      bracesThrough? false .outside Braces.entered body := by
    intro blank
    cases blank <;> rfl
  rw [shape, List.append_assoc, List.singleton_append]
  exact bracesThrough?_inert_append inert opened true

theorem countBraces_headText (identifier : isIdentifier condition.name = true)
    (fresh : Condition.AreFresh [] condition.parameters) :
    countBraces .outside Braces.start condition.headText = .pending Braces.entered := by
  have through := bracesThrough?_headText identifier fresh []
  have unbroken := Condition.not_mem_headText identifier fresh
    (by decide : Condition.isHeadCharacter '\n' = false) (by decide)
  rw [List.append_nil, bracesThrough?_eq_bracesBehind?, List.splitOn_eq_singleton unbroken,
    bracesBehind?] at through
  split at through
  · cases through
  · split at through
    · rename_i braces counted
      obtain rfl : braces = Braces.entered := Option.some.inj through
      exact counted
    · cases through

theorem reads_headText (written : condition.IsWellFormed) :
    Reads number none ([] :: condition.headText :: lines) draft final ↔
      Reads (number + 1 + 1)
        (some { line := number + 1
                reversed := condition.headText.reverse
                braces := Braces.entered }) lines draft final := by
  have trimmed : Text.trim condition.headText = condition.headText := by
    simpa [Text.trimEnd] using Condition.trim_headText condition []
  have filled : condition.headText ≠ [] := by
    obtain ⟨start, shape, _⟩ := Condition.exists_headText written.identifier written.fresh
    rw [shape]
    simp
  have opens := startsCondition_headText condition []
  rw [List.append_nil] at opens
  rw [reads_blank rfl, reads_opening (by rwa [trimmed])
    (by rw [trimmed]; exact not_comment_of_startsCondition opens)
    (by rw [trimmed]; exact opens)
    (by rw [trimmed]; exact countBraces_headText written.identifier written.fresh), trimmed]

theorem bracesBehind?_bodyLines (condition : Condition) (braces : Braces) :
    bracesBehind? braces condition.bodyLines =
      bracesBehind? braces (condition.expression.toList.splitOn '\n') := by
  have blank : IsInert ' ' := ⟨by decide, by decide, rfl, by decide, by decide⟩
  rw [Condition.bodyLines, ← bracesThrough?_eq_bracesBehind?,
    ← bracesThrough?_eq_bracesBehind?]
  exact (bracesThrough?_inert blank true braces _).trans
    (bracesThrough?_inert blank true braces _)

theorem blockText_bodyLines (condition : Condition) :
    blockText condition.bodyLines = "\n  ".toList ++ condition.expression.toList :=
  Text.flatMap_splitOn '\n' _

/-- A block with the head of a condition adds that condition, with the expression
that the block holds. -/
theorem applyText_headText_eq_ok_iff (written : condition.IsWellFormed)
    {body : List Char} :
    draft.applyText (condition.headText ++ body) = .ok next ↔
      ∃ expression, Condition.blockExpression? body = some expression ∧
        Expression.check (condition.parameters.map (·.name)) expression = .ok () ∧
          condition.name ∉ draft.conditionNames ∧
            next = draft.withCondition
              { condition with expression := String.ofList expression } := by
  have readBack (read : Condition) :
      Condition.ofText (condition.headText ++ body) = .ok read ↔
        ∃ expression, Condition.blockExpression? body = some expression ∧
          Expression.check (condition.parameters.map (·.name)) expression = .ok () ∧
            read = { condition with expression := String.ofList expression } :=
    Condition.ofText_headText_eq_ok_iff written.identifier written.fresh body
  rw [Draft.applyText, if_pos (startsCondition_headText condition body)]
  constructor
  · intro added
    obtain ⟨read, found, fresh, rfl⟩ := Draft.step_of_addCondition added
    obtain ⟨expression, block, checked, rfl⟩ := (readBack read).mp found
    exact ⟨expression, block, checked, fresh, rfl⟩
  · rintro ⟨expression, block, checked, fresh, rfl⟩
    have found := (readBack _).mpr ⟨expression, block, checked, rfl⟩
    simp [Draft.addCondition, found, fresh, Draft.withCondition]

private theorem countBraces_last {braces : Braces} (shallow : braces.leave.isClosed) :
    countBraces .outside braces ['\x7d'] = .closed ['\x7d'] [] := by
  simp [countBraces, Expression.isQuote, shallow]

theorem applyText_written_eq_ok_iff (written : condition.IsWellFormed)
    (fresh : condition.name ∉ draft.conditionNames) :
    draft.applyText (condition.headText ++
        ("\n  ".toList ++ condition.expression.toList ++ "\n\x7d".toList)) = .ok next ↔
      next = draft.withCondition condition := by
  have expression := Condition.blockExpression?_written written.tight Text.allBlank_nil
  rw [List.append_nil] at expression
  rw [applyText_headText_eq_ok_iff written]
  constructor
  · rintro ⟨found, block, _, _, rfl⟩
    rw [expression] at block
    obtain rfl := Option.some.inj block
    rw [String.ofList_toList]
  · rintro rfl
    exact ⟨_, expression, written.checked, fresh, by rw [String.ofList_toList]⟩

/-- A written condition is read back if its expression fits a block. -/
theorem reads_writtenLines (written : condition.IsWellFormed)
    (fits : FitsBlock condition.expression.toList)
    (fresh : condition.name ∉ draft.conditionNames) :
    Reads number none (condition.writtenLines ++ lines) draft final ↔
      Reads (number + condition.writtenLines.length) none lines
        (draft.withCondition condition) final := by
  have behind : bracesBehind? Braces.entered condition.bodyLines = some Braces.entered := by
    rw [bracesBehind?_bodyLines]
    exact fits
  have count : number + condition.writtenLines.length =
      number + 1 + 1 + condition.bodyLines.length + 1 := by
    simp only [Condition.writtenLines, List.length_cons, List.length_append,
      List.length_nil]
    omega
  rw [Condition.writtenLines_append, reads_headText written, reads_body behind,
    reads_closing (by decide) (countBraces_last rfl), count]
  have text : (OpenBlock.extend { line := number + 1
                                  reversed := condition.headText.reverse
                                  braces := Braces.entered }
        condition.bodyLines Braces.entered).reversed.reverse ++
      '\n' :: closingLine ['\x7d'] [] =
        condition.headText ++
          ("\n  ".toList ++ condition.expression.toList ++ "\n\x7d".toList) := by
    have closing : closingLine ['\x7d'] [] = ['\x7d'] := rfl
    simp [OpenBlock.extend, blockText_bodyLines, closing]
  rw [text]
  constructor
  · rintro ⟨next, added, later⟩
    rwa [(applyText_written_eq_ok_iff written fresh).mp added] at later
  · intro later
    exact ⟨_, (applyText_written_eq_ok_iff written fresh).mpr rfl, later⟩

end Dsl

end Rebac
