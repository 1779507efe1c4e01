import Mathlib.Data.List.Basic
import Rebac.Condition.Block
import Rebac.Proofs.Relation.Spelling
import Rebac.Proofs.Text.Lines
import Rebac.Proofs.Text.Trim

/-!
# Reading written condition blocks

The head of a written block is read back whatever stands behind its opening
brace.  The expression of a block is what stands before its last brace, up to
blanks.  A condition that passes its check is therefore the reading of its own
block.
-/

namespace Rebac

theorem isIdentifier_iff {name : String} :
    isIdentifier name = true ↔
      ∃ first rest, name.toList = first :: rest ∧ isIdentifierStart first = true ∧
        ∀ character ∈ rest, isIdentifierCharacter character = true := by
  unfold isIdentifier
  cases name.toList with
  | nil => simp
  | cons first rest =>
      constructor
      · intro identifier
        obtain ⟨start, characters⟩ := Bool.and_eq_true_iff.mp identifier
        exact ⟨first, rest, rfl, start, List.all_eq_true.mp characters⟩
      · rintro ⟨_, _, shape, start, characters⟩
        obtain ⟨rfl, rfl⟩ := List.cons.inj shape
        simpa [start] using characters

theorem isIdentifierCharacter_of_start {character : Char}
    (start : isIdentifierStart character = true) :
    isIdentifierCharacter character = true := by
  simp only [isIdentifierStart, Bool.or_eq_true] at start
  simp only [isIdentifierCharacter, Char.isAlphanum, Bool.or_eq_true]
  rcases start with alphabetic | underscore
  · exact Or.inl (Or.inl alphabetic)
  · exact Or.inr underscore

theorem isIdentifierCharacter_of_mem {name : String}
    (identifier : isIdentifier name = true) {character : Char}
    (member : character ∈ name.toList) : isIdentifierCharacter character = true := by
  obtain ⟨first, rest, shape, start, characters⟩ := isIdentifier_iff.mp identifier
  rw [shape] at member
  rcases List.mem_cons.mp member with rfl | inRest
  · exact isIdentifierCharacter_of_start start
  · exact characters character inRest

theorem not_isBlank_of_isIdentifierCharacter {character : Char}
    (identifier : isIdentifierCharacter character = true) :
    Text.isBlank character = false :=
  not_isBlank_of_isNameCharacter (isNameCharacter_of_isIdentifierCharacter identifier)

theorem isTight_identifier {name : String} (identifier : isIdentifier name = true) :
    Text.IsTight name.toList :=
  Text.isTight_of_forall fun _ member =>
    not_isBlank_of_isIdentifierCharacter (isIdentifierCharacter_of_mem identifier member)

theorem not_mem_identifier {name : String} (identifier : isIdentifier name = true)
    (mark : Char) (outside : isIdentifierCharacter mark = false) :
    mark ∉ name.toList := by
  intro member
  rw [isIdentifierCharacter_of_mem identifier member] at outside
  cases outside

namespace Text

theorem splitOnce_append {separator : Char} {before : List Char}
    (absent : separator ∉ before) (after : List Char) :
    splitOnce separator (before ++ separator :: after) = some (before, after) := by
  induction before with
  | nil => simp [splitOnce]
  | cons character before induction =>
      have different : character ≠ separator := fun same =>
        absent (same ▸ List.mem_cons_self)
      have tail := induction (List.not_mem_of_not_mem_cons absent)
      simp [splitOnce, different, tail]

theorem isPrefixOf?_append (keyword text : List Char) :
    List.isPrefixOf? keyword (keyword ++ text) = some text :=
  List.isPrefixOf?_eq_some_iff_append_eq.mpr rfl

theorem skipGap_of_not_isBlank {text : List Char} {character : Char}
    (solid : isBlank character = false) :
    skipGap (character :: text) = character :: text := by
  apply List.dropWhile_cons_of_neg
  intro gap
  rw [isBlank_of_isAsciiBlank (isAsciiBlank_of_isGap gap)] at solid
  cases solid

end Text

namespace Condition

/-- What stands between the parentheses of a written block. -/
def parametersText (parameters : List Parameter) : List Char :=
  ", ".toList.intercalate (parameters.map parameterText)

theorem typeName_characters (type : ParameterType) :
    type.name.toList ≠ [] ∧
      ∀ character ∈ type.name.toList, isIdentifierCharacter character = true := by
  have characters : type.name.toList.all isIdentifierCharacter = true := by
    cases type <;> decide
  refine ⟨?_, List.all_eq_true.mp characters⟩
  cases type <;> decide

theorem isTight_parameterText {parameter : Parameter}
    (identifier : isIdentifier parameter.name = true) :
    Text.IsTight (parameterText parameter) := by
  obtain ⟨typeFilled, typeCharacters⟩ := typeName_characters parameter.type
  have typeTight : Text.IsTight parameter.type.name.toList :=
    Text.isTight_of_forall fun character member =>
      not_isBlank_of_isIdentifierCharacter (typeCharacters character member)
  have nameFilled : parameter.name.toList ≠ [] := by
    obtain ⟨first, rest, shape, _⟩ := isIdentifier_iff.mp identifier
    simp [shape]
  exact Text.isTight_append (isTight_identifier identifier) typeTight nameFilled
    typeFilled ": ".toList

theorem not_mem_parameterText {parameter : Parameter}
    (identifier : isIdentifier parameter.name = true) (mark : Char)
    (outside : isIdentifierCharacter mark = false) (noColon : mark ≠ ':')
    (noBlank : mark ≠ ' ') : mark ∉ parameterText parameter := by
  have inName := not_mem_identifier identifier mark outside
  have inType : mark ∉ parameter.type.name.toList := by
    intro member
    rw [(typeName_characters parameter.type).2 mark member] at outside
    cases outside
  simp [parameterText, inName, inType, noColon, noBlank]

theorem not_mem_parametersText {parameters : List Parameter}
    (identifiers : ∀ parameter ∈ parameters, isIdentifier parameter.name = true)
    (mark : Char) (outside : isIdentifierCharacter mark = false) (noColon : mark ≠ ':')
    (noBlank : mark ≠ ' ') (noComma : mark ≠ ',') :
    mark ∉ parametersText parameters := by
  induction parameters with
  | nil => simp [parametersText]
  | cons parameter parameters induction =>
      have head := not_mem_parameterText (identifiers parameter (by simp)) mark outside
        noColon noBlank
      have tail := induction fun other member => identifiers other (by simp [member])
      cases parameters with
      | nil => simpa [parametersText] using head
      | cons second parameters =>
          have joined : parametersText (parameter :: second :: parameters) =
              parameterText parameter ++ ", ".toList ++
                parametersText (second :: parameters) :=
            List.intercalate_cons_cons
          simp [joined, head, tail, noComma, noBlank]

theorem splitOn_parametersText {parameter : Parameter} {parameters : List Parameter}
    (identifiers : ∀ other ∈ parameter :: parameters,
      isIdentifier other.name = true) :
    (parametersText (parameter :: parameters)).splitOn ',' =
      parameterText parameter :: parameters.map (' ' :: parameterText ·) := by
  induction parameters generalizing parameter with
  | nil =>
      have absent := not_mem_parameterText (identifiers parameter (by simp))
        ',' (by decide) (by decide) (by decide)
      simpa [parametersText] using List.splitOn_eq_singleton absent
  | cons second parameters induction =>
      have absent := not_mem_parameterText (identifiers parameter (by simp))
        ',' (by decide) (by decide) (by decide)
      have tail := induction (fun other member =>
        identifiers other (List.mem_cons_of_mem _ member) :
          ∀ other ∈ second :: parameters, _)
      have joined : parametersText (parameter :: second :: parameters) =
          parameterText parameter ++ ',' :: ([' '] ++ parametersText (second :: parameters)) := by
        unfold parametersText
        rw [List.map_cons, List.map_cons, List.intercalate_cons_cons]
        simp
      rw [joined, List.splitOn_append_cons_self_of_not_mem absent,
        Text.splitOn_append_of_not_mem (by decide), tail]
      simp

theorem readParameter_parameterText {parameter : Parameter} {declared : List String}
    (condition : String) (identifier : isIdentifier parameter.name = true)
    (fresh : parameter.name ∉ declared) :
    readParameter condition declared (parameterText parameter) = .ok parameter := by
  have absent := not_mem_identifier identifier ':' (by decide)
  have cut : Text.splitOnce ':' (parameterText parameter) =
      some (parameter.name.toList, ' ' :: parameter.type.name.toList) := by
    have shape : parameterText parameter =
        parameter.name.toList ++ ':' :: (' ' :: parameter.type.name.toList) := by
      simp [parameterText]
    rw [shape]
    exact Text.splitOnce_append absent _
  have name : Text.trim parameter.name.toList = parameter.name.toList :=
    Text.trim_of_isTight (isTight_identifier identifier)
  have typeTight : Text.IsTight parameter.type.name.toList :=
    Text.isTight_of_forall fun character member =>
      not_isBlank_of_isIdentifierCharacter
        ((typeName_characters parameter.type).2 character member)
  have typeName : Text.trim (' ' :: parameter.type.name.toList) =
      parameter.type.name.toList := Text.trim_blank_cons (by decide) typeTight
  simp [readParameter, cut, name, typeName, identifier, ParameterType.ofText?_name, fresh]

/-- Parameters that are declared once each, and not among those before. -/
def AreFresh (declared : List String) (parameters : List Parameter) : Prop :=
  repeatedParameter? declared parameters = none

theorem areFresh_cons {declared : List String} {parameter : Parameter}
    {parameters : List Parameter} :
    AreFresh declared (parameter :: parameters) ↔
      (isIdentifier parameter.name = true ∧ parameter.name ∉ declared) ∧
        AreFresh (parameter.name :: declared) parameters := by
  unfold AreFresh
  rw [repeatedParameter?]
  cases identifier : isIdentifier parameter.name <;>
    by_cases member : parameter.name ∈ declared <;> simp [member]

theorem AreFresh.identifiers {declared : List String} {parameters : List Parameter}
    (fresh : AreFresh declared parameters) :
    ∀ parameter ∈ parameters, isIdentifier parameter.name = true := by
  induction parameters generalizing declared with
  | nil => simp
  | cons parameter parameters induction =>
      obtain ⟨⟨identifier, _⟩, later⟩ := areFresh_cons.mp fresh
      intro other member
      rcases List.mem_cons.mp member with rfl | inTail
      · exact identifier
      · exact induction later other inTail

theorem AreFresh.not_mem {declared : List String} {parameters : List Parameter}
    (fresh : AreFresh declared parameters) :
    ∀ parameter ∈ parameters, parameter.name ∉ declared := by
  induction parameters generalizing declared with
  | nil => simp
  | cons parameter parameters induction =>
      obtain ⟨⟨_, absent⟩, later⟩ := areFresh_cons.mp fresh
      intro other member
      rcases List.mem_cons.mp member with rfl | inTail
      · exact absent
      · exact fun known => induction later other inTail (List.mem_cons_of_mem _ known)

theorem AreFresh.nodup {declared : List String} {parameters : List Parameter}
    (fresh : AreFresh declared parameters) : (parameters.map (·.name)).Nodup := by
  induction parameters generalizing declared with
  | nil => exact List.nodup_nil
  | cons parameter parameters induction =>
      obtain ⟨_, later⟩ := areFresh_cons.mp fresh
      rw [List.map_cons, List.nodup_cons]
      refine ⟨?_, induction later⟩
      intro repeated
      obtain ⟨other, inTail, same⟩ := List.mem_map.mp repeated
      apply later.not_mem other inTail
      rw [same]
      exact List.mem_cons_self

theorem readEntries_parameterTexts {parameters : List Parameter}
    {declared : List String} (condition : String)
    (fresh : AreFresh declared parameters) {entries : List (List Char)}
    (written : entries.map Text.trim = parameters.map parameterText) :
    readEntries condition declared entries = .ok parameters := by
  induction parameters generalizing declared entries with
  | nil =>
      obtain rfl : entries = [] := by simpa using written
      rfl
  | cons parameter parameters induction =>
      obtain ⟨⟨identifier, absent⟩, later⟩ := areFresh_cons.mp fresh
      cases entries with
      | nil => simp at written
      | cons entry entries =>
          obtain ⟨head, tail⟩ := List.cons.inj written
          have first := readParameter_parameterText condition identifier absent
          have rest := induction later tail
          rw [readEntries, head, first]
          simp only [bind, Except.bind, rest]
          rfl

/-- Written parameters are read back. -/
theorem readParameters_parametersText {parameters : List Parameter} (condition : String)
    (fresh : AreFresh [] parameters) :
    readParameters condition (parametersText parameters) = .ok parameters := by
  have identifiers := fresh.identifiers
  cases parameters with
  | nil => rfl
  | cons parameter parameters =>
      have tight : ∀ other ∈ parameter :: parameters,
          Text.IsTight (parameterText other) ∧ parameterText other ≠ [] :=
        fun other member => ⟨isTight_parameterText (identifiers other member),
          by simp [parameterText]⟩
      have written : ∀ part ∈ (parameter :: parameters).map parameterText,
          Text.IsTight part ∧ part ≠ [] := by
        intro part member
        obtain ⟨other, inParameters, rfl⟩ := List.mem_map.mp member
        exact tight other inParameters
      obtain ⟨wholeTight, wholeFilled⟩ :=
        Text.isTight_intercalate ", ".toList (by simp) written
      -- The blank behind each comma is trimmed with the entry.
      have written :
          (parameterText parameter :: parameters.map (' ' :: parameterText ·)).map
              Text.trim = (parameter :: parameters).map parameterText := by
        have spaced : ∀ other ∈ parameters,
            Text.trim (' ' :: parameterText other) = parameterText other :=
          fun other member => Text.trim_blank_cons (by decide)
            (tight other (List.mem_cons_of_mem _ member)).1
        rw [List.map_cons, List.map_cons, List.map_map,
          Text.trim_of_isTight (tight parameter List.mem_cons_self).1]
        exact congrArg _ (List.map_congr_left spaced)
      have filled : (parametersText (parameter :: parameters)).isEmpty = false := by
        simpa [parametersText] using wholeFilled
      have trimmed : Text.trim (parametersText (parameter :: parameters)) =
          parametersText (parameter :: parameters) := Text.trim_of_isTight wholeTight
      simp only [readParameters, trimmed, filled, splitOn_parametersText identifiers,
        Bool.false_eq_true, if_false]
      exact readEntries_parameterTexts condition fresh written

/-- The head of a written block, up to its opening brace. -/
def headText (condition : Condition) : List Char :=
  "condition ".toList ++ condition.name.toList ++ "(".toList ++
    parametersText condition.parameters ++ ") \x7b".toList

theorem toText_eq_headText (condition : Condition) :
    condition.toText =
      condition.headText ++ "\n  ".toList ++ condition.expression.toList ++
        "\n\x7d\n".toList := by
  unfold toText headText parametersText
  simp only [List.append_assoc]
  rfl

private theorem span_identifier {name : String} (identifier : isIdentifier name = true)
    (rest : List Char) :
    List.takeWhile (fun character => decide (character ≠ '(') && decide (character ≠ '\x7b'))
        (name.toList ++ '(' :: rest) = name.toList ∧
      List.dropWhile (fun character => decide (character ≠ '(') && decide (character ≠ '\x7b'))
        (name.toList ++ '(' :: rest) = '(' :: rest := by
  have outside : ∀ character ∈ name.toList,
      (decide (character ≠ '(') && decide (character ≠ '\x7b')) = true := by
    intro character member
    have noRound := not_mem_identifier identifier '(' (by decide)
    have noCurly := not_mem_identifier identifier '\x7b' (by decide)
    have notRound : character ≠ '(' := fun same => noRound (same ▸ member)
    have notCurly : character ≠ '\x7b' := fun same => noCurly (same ▸ member)
    simp [notRound, notCurly]
  rw [List.takeWhile_append_of_pos outside, List.dropWhile_append_of_pos outside]
  exact ⟨List.append_nil _, rfl⟩

/-- The head of a written block is found whatever follows it. -/
theorem blockHead?_headText {condition : Condition}
    (identifier : isIdentifier condition.name = true)
    (fresh : AreFresh [] condition.parameters) (body : List Char) :
    blockHead? (condition.headText ++ body) =
      some (condition.name.toList, parametersText condition.parameters, body) := by
  obtain ⟨first, rest, shape, start, characters⟩ := isIdentifier_iff.mp identifier
  have noParenthesis := not_mem_parametersText fresh.identifiers ')'
    (by decide) (by decide) (by decide) (by decide)
  have solid : Text.isBlank first = false :=
    not_isBlank_of_isIdentifierCharacter (isIdentifierCharacter_of_start start)
  have layout : condition.headText ++ body =
      "condition".toList ++ ' ' :: (condition.name.toList ++ '(' ::
        (parametersText condition.parameters ++ ')' :: (" \x7b".toList ++ body))) := by
    unfold headText
    simp only [List.append_assoc]
    rfl
  have named : Text.skipGap
      (' ' :: (condition.name.toList ++ '(' ::
        (parametersText condition.parameters ++ ')' :: (" \x7b".toList ++ body)))) =
      condition.name.toList ++ '(' ::
        (parametersText condition.parameters ++ ')' :: (" \x7b".toList ++ body)) := by
    have skipped : Text.isGap ' ' = true := by decide
    rw [Text.skipGap, List.dropWhile_cons_of_pos skipped, shape]
    exact Text.skipGap_of_not_isBlank solid
  obtain ⟨name, behind⟩ := span_identifier identifier
    (parametersText condition.parameters ++ ')' :: (" \x7b".toList ++ body))
  have cut := Text.splitOnce_append noParenthesis (" \x7b".toList ++ body)
  have brace : Text.skipGap (" \x7b".toList ++ body) = '\x7b' :: body := rfl
  simp only [blockHead?, layout, Text.isPrefixOf?_append, named, name, behind, cut, brace,
    bind, Option.bind_some]

theorem blockExpression?_eq_some_iff {body expression : List Char} :
    blockExpression? body = some expression ↔
      Text.IsTight expression ∧
        ∃ before after remark, Text.AllBlank before ∧ Text.AllBlank after ∧
          Text.AllBlank remark ∧
            body = before ++ expression ++ after ++ '\x7d' :: remark := by
  have solid : Text.isBlank '\x7d' = false := by decide
  constructor
  · intro found
    simp only [blockExpression?] at found
    split at found
    · rename_i closed
      obtain rfl : Text.trim (Text.trimEnd body).dropLast = expression := by
        simpa using found
      obtain ⟨remark, remarkBlank, bodySplit⟩ := Text.exists_trimEnd body
      obtain ⟨init, ends⟩ := List.getLast?_eq_some_iff.mp closed
      obtain ⟨before, after, beforeBlank, afterBlank, initSplit⟩ :=
        Text.exists_surroundings init
      rw [ends, List.dropLast_concat]
      refine ⟨Text.isTight_trim init, before, after, remark, beforeBlank, afterBlank,
        remarkBlank, ?_⟩
      calc
        body = init ++ ['\x7d'] ++ remark := by rw [← ends]; exact bodySplit
        _ = before ++ Text.trim init ++ after ++ ['\x7d'] ++ remark := by
          rw [← initSplit]
        _ = before ++ Text.trim init ++ after ++ '\x7d' :: remark := by simp
    · simp at found
  · rintro ⟨tight, before, after, remark, beforeBlank, afterBlank, remarkBlank, rfl⟩
    have cut : Text.trimEnd (before ++ expression ++ after ++ '\x7d' :: remark) =
        before ++ expression ++ after ++ ['\x7d'] := by
      have nothing : Text.trimEnd remark = [] := by
        simpa [Text.trimEnd] using Text.trimEnd_append_blank remarkBlank []
      rw [Text.trimEnd_append solid, nothing]
    simp only [blockExpression?, cut, List.getLast?_concat, if_true,
      List.dropLast_concat, Text.trim_surrounded beforeBlank tight afterBlank]

theorem blockExpression?_written {expression remark : List Char}
    (tight : Text.IsTight expression) (blank : Text.AllBlank remark) :
    blockExpression? ("\n  ".toList ++ expression ++ "\n\x7d".toList ++ remark) =
      some expression := by
  have before : Text.AllBlank "\n  ".toList := by decide
  have after : Text.AllBlank "\n".toList := by decide
  refine blockExpression?_eq_some_iff.mpr
    ⟨tight, "\n  ".toList, "\n".toList, remark, before, after, blank, ?_⟩
  simp

theorem blockExpression?_trimEnd (body : List Char) :
    blockExpression? (Text.trimEnd body) = blockExpression? body := by
  obtain ⟨remark, blank, split⟩ := Text.exists_trimEnd body
  have same : Text.trimEnd (Text.trimEnd body) = Text.trimEnd body := by
    have trimmed := congrArg Text.trimEnd split
    rw [Text.trimEnd_append_blank blank] at trimmed
    exact trimmed.symm
  unfold blockExpression?
  simp only [same]

theorem trim_headText (condition : Condition) (body : List Char) :
    Text.trim (condition.headText ++ body) = condition.headText ++ Text.trimEnd body := by
  have opening : Text.trimStart (condition.headText ++ body) =
      condition.headText ++ body := rfl
  have closing : condition.headText ++ body =
      ("condition ".toList ++ condition.name.toList ++ "(".toList ++
        parametersText condition.parameters ++ ") ".toList) ++ '\x7b' :: body := by
    unfold headText
    simp only [List.append_assoc]
    rfl
  rw [Text.trim, opening, closing, Text.trimEnd_append (by decide)]
  unfold headText
  simp only [List.append_assoc]
  rfl

/-- Reading a text that starts with the head of a written block fails or
yields the condition of that head with the expression that was found. -/
theorem ofText_headText_eq_ok_iff {condition read : Condition}
    (identifier : isIdentifier condition.name = true)
    (fresh : AreFresh [] condition.parameters) (body : List Char) :
    ofText (condition.headText ++ body) = .ok read ↔
      ∃ expression, blockExpression? body = some expression ∧
        Expression.check (condition.parameters.map (·.name)) expression = .ok () ∧
          read = { condition with expression := String.ofList expression } := by
  have head := blockHead?_headText identifier fresh (Text.trimEnd body)
  have name : Text.trim condition.name.toList = condition.name.toList :=
    Text.trim_of_isTight (isTight_identifier identifier)
  have parameters := readParameters_parametersText condition.name fresh
  unfold ofText
  simp only [trim_headText, head, blockExpression?_trimEnd, name, String.ofList_toList,
    identifier, if_true, parameters, bind, Except.bind]
  cases blockExpression? body with
  | none => simp
  | some expression =>
      cases checked :
          Expression.check (condition.parameters.map (·.name)) expression with
      | error cause => simp [checked]
      | ok accepted => simp [checked, pure, Except.pure, eq_comm]

/-- What a condition needs to pass its check. -/
theorem check_eq_ok_iff {condition : Condition} :
    condition.check = .ok () ↔
      isIdentifier condition.name = true ∧ AreFresh [] condition.parameters ∧
        isPadded condition.expression.toList = false ∧
          Expression.check (condition.parameters.map (·.name))
            condition.expression.toList = .ok () := by
  unfold check AreFresh
  cases isIdentifier condition.name with
  | false => simp
  | true =>
      cases repeatedParameter? [] condition.parameters with
      | some name => simp
      | none =>
          cases padded : isPadded condition.expression.toList with
          | false =>
              cases checked : Expression.check (condition.parameters.map (·.name))
                  condition.expression.toList with
              | error cause => simp [padded, checked]
              | ok accepted => simp [padded, checked]
          | true =>
              cases empty : (Text.trim condition.expression.toList).isEmpty with
              | false => simp_all
              | true => simp [Expression.check, padded, empty]

theorem isPadded_eq_false_iff {expression : List Char} :
    isPadded expression = false ↔
      Text.IsTight expression ∧ '\r' ∉ expression := by
  rw [Text.isTight_iff]
  simp [isPadded]

end Condition

end Rebac
