import Rebac.Proofs.Dsl.Fitting
import Rebac.Proofs.Dsl.Statement
import Rebac.Proofs.Validity.Spellable

/-!
# Reading written models

A written model is read statement by statement: the schema version, every
condition, and every type with its relations.  Reading it yields the model again
if the model is well formed, its schema version does not look like a comment, and
the expressions of its conditions fit their blocks.
-/

namespace Rebac

namespace Dsl

variable {number : Nat} {lines : List (List Char)} {draft final : Draft}

theorem lines_conditions {conditions : List Condition}
    (wellFormed : ∀ condition ∈ conditions, condition.IsWellFormed)
    (noReturn : ∀ condition ∈ conditions, '\r' ∉ condition.expression.toList)
    (rest : List Char) :
    Text.lines (conditions.flatMap (fun condition => '\n' :: condition.toText) ++ rest) =
      conditions.flatMap Condition.writtenLines ++ Text.lines rest := by
  induction conditions with
  | nil => rfl
  | cons condition conditions induction =>
      have tail := induction (fun other member => wellFormed other (by simp [member]))
        (fun other member => noReturn other (by simp [member]))
      rw [List.flatMap_cons, List.flatMap_cons, List.append_assoc, List.append_assoc,
        List.cons_append, Condition.lines_toText (wellFormed condition (by simp))
          (noReturn condition (by simp)), tail]

theorem lines_types {types : List TypeDefinition}
    (wellFormed : ∀ type ∈ types, type.IsWellFormed) :
    Text.lines (types.flatMap fun type => '\n' :: type.toText) =
      types.flatMap TypeDefinition.writtenLines := by
  induction types with
  | nil => rfl
  | cons type types induction =>
      have tail := induction fun other member => wellFormed other (by simp [member])
      rw [List.flatMap_cons, List.flatMap_cons, List.cons_append,
        lines_type (wellFormed type (by simp)), tail]

/-- The line that states the schema version. -/
def schemaLine (version : String) : List Char :=
  "  schema".toList ++ ' ' :: version.toList

theorem lines_toDsl {model : Model} (wellFormed : model.IsWellFormed)
    (version : IsSchemaVersion model.schemaVersion)
    (noReturn : ∀ condition ∈ model.conditions, '\r' ∉ condition.expression.toList) :
    Text.lines model.toDsl =
      "model".toList :: schemaLine model.schemaVersion ::
        (model.conditions.flatMap Condition.writtenLines ++
          model.types.flatMap TypeDefinition.writtenLines) := by
  have layout : model.toDsl =
      "model".toList ++ '\n' :: (schemaLine model.schemaVersion ++ '\n' ::
        (model.conditions.flatMap (fun condition => '\n' :: condition.toText) ++
          model.types.flatMap fun type => '\n' :: type.toText)) := by
    unfold Model.toDsl schemaLine
    simp only [List.append_assoc, List.cons_append]
    rfl
  have inline : ∀ character ∈ schemaLine model.schemaVersion,
      character ≠ '\n' ∧ character ≠ '\r' := by
    have keyword : ∀ other ∈ "  schema".toList, other ≠ '\n' ∧ other ≠ '\r' := by simp
    intro character member
    rcases List.mem_append.mp member with inKeyword | inVersion
    · exact keyword character inKeyword
    · rcases List.mem_cons.mp inVersion with rfl | inVersion
      · decide
      · have solid := version.2 character inVersion
        constructor
        · rintro rfl
          exact absurd solid (by decide)
        · rintro rfl
          exact absurd solid (by decide)
  have noBreak : '\n' ∉ schemaLine model.schemaVersion := fun member =>
    (inline _ member).1 rfl
  have noReturn' : '\r' ∉ schemaLine model.schemaVersion := fun member =>
    (inline _ member).2 rfl
  rw [layout, Text.lines_append_single (by decide) (by decide),
    Text.lines_append_single noReturn' noBreak,
    lines_conditions wellFormed.conditions noReturn, lines_types wellFormed.types]

theorem reads_conditions {conditions : List Condition}
    (wellFormed : ∀ condition ∈ conditions, condition.IsWellFormed)
    (fits : ∀ condition ∈ conditions, FitsBlock condition.expression.toList)
    (distinct : (conditions.map (·.name)).Nodup)
    (fresh : ∀ condition ∈ conditions, condition.name ∉ draft.conditionNames) :
    ∃ later, Reads number none (conditions.flatMap Condition.writtenLines ++ lines)
        draft final ↔
      Reads later none lines (conditions.foldl Draft.withCondition draft) final := by
  induction conditions generalizing number draft with
  | nil => exact ⟨number, Iff.rfl⟩
  | cons condition conditions induction =>
      obtain ⟨absent, distinctTail⟩ := List.nodup_cons.mp distinct
      have freshTail : ∀ other ∈ conditions,
          other.name ∉ (draft.withCondition condition).conditionNames := by
        intro other member known
        rcases List.mem_cons.mp known with same | earlier
        · exact absent (List.mem_map.mpr ⟨other, member, same⟩)
        · exact fresh other (by simp [member]) earlier
      obtain ⟨later, tail⟩ := @induction
        (number + condition.writtenLines.length) (draft.withCondition condition)
        (fun other member => wellFormed other (by simp [member]))
        (fun other member => fits other (by simp [member])) distinctTail freshTail
      refine ⟨later, ?_⟩
      rw [List.flatMap_cons, List.append_assoc,
        reads_writtenLines (wellFormed condition (by simp)) (fits condition (by simp))
          (fresh condition (by simp)), tail, List.foldl_cons]

theorem reads_types {types : List TypeDefinition}
    (wellFormed : ∀ type ∈ types, type.IsWellFormed)
    (distinct : (draft.model.types.map (·.name) ++ types.map (·.name)).Nodup) :
    ∃ later, Reads number none (types.flatMap TypeDefinition.writtenLines ++ lines)
        draft final ↔
      Reads later none lines (types.foldl Draft.withTypeDefinition draft) final := by
  induction types generalizing number draft with
  | nil => exact ⟨number, Iff.rfl⟩
  | cons type types induction =>
      have fresh : type.name ∉ draft.model.types.map (·.name) := by
        intro member
        exact (List.nodup_append.mp distinct).2.2 _ member _ (by simp) rfl
      obtain ⟨later, tail⟩ := @induction (number + type.writtenLines.length)
        (draft.withTypeDefinition type)
        (fun other member => wellFormed other (by simp [member]))
        (by simpa [Draft.withTypeDefinition] using distinct)
      refine ⟨later, ?_⟩
      rw [List.flatMap_cons, List.append_assoc,
        reads_writtenType (wellFormed type (by simp)) fresh, tail, List.foldl_cons]

theorem model_withConditions (conditions : List Condition) (draft : Draft) :
    (conditions.foldl Draft.withCondition draft).model =
      { draft.model with conditions := draft.model.conditions ++ conditions } := by
  induction conditions generalizing draft with
  | nil => simp
  | cons condition conditions induction =>
      rw [List.foldl_cons, induction]
      simp [Draft.withCondition]

theorem model_withTypes (types : List TypeDefinition) (draft : Draft) :
    (types.foldl Draft.withTypeDefinition draft).model =
      { draft.model with types := draft.model.types ++ types } := by
  induction types generalizing draft with
  | nil => simp
  | cons type types induction =>
      rw [List.foldl_cons, induction]
      simp [Draft.withTypeDefinition]

theorem reads_start :
    Reads number none ("model".toList :: lines) draft final ↔
      Reads (number + 1) none lines draft final :=
  reads_effect (by decide : Text.trim "model".toList = "model".toList) (by decide) rfl rfl
    (by decide) applyText_model

theorem trim_schemaLine {version : String} (valid : IsSchemaVersion version) :
    Text.trim (schemaLine version) = "schema".toList ++ ' ' :: version.toList := by
  obtain ⟨keywordTight, keywordFilled⟩ :=
    Rule.isTight_name (by decide : isName "schema" = true)
  have tight : Text.IsTight ("schema".toList ++ ' ' :: version.toList) := by
    simpa using Text.isTight_append keywordTight (Text.isTight_of_forall valid.2)
      keywordFilled valid.1 [' ']
  have blank : Text.AllBlank "  ".toList := by decide
  have surrounded := Text.trim_surrounded blank tight Text.allBlank_nil
  rw [List.append_nil] at surrounded
  exact surrounded

theorem cutComment_schema {version : String} (valid : IsSchemaVersion version)
    (noComment : startsComment version.toList = false) :
    cutComment true ("schema".toList ++ ' ' :: version.toList) =
      "schema".toList ++ ' ' :: version.toList := by
  obtain ⟨first, rest, shape⟩ := List.exists_cons_of_ne_nil valid.1
  have solid := valid.2
  rw [shape] at noComment solid ⊢
  have noHash : first ≠ '#' := by
    rintro rfl
    cases noComment
  have version : cutComment false (' ' :: first :: rest) = ' ' :: first :: rest := by
    have tail := cutComment_of_solid fun other member =>
      solid other (List.mem_cons_of_mem first member)
    have head : Text.isAsciiBlank first = false := by
      cases blank : Text.isAsciiBlank first with
      | false => rfl
      | true =>
          have firstSolid := solid first List.mem_cons_self
          rw [Text.isBlank_of_isAsciiBlank blank] at firstSolid
          cases firstSolid
    simp [cutComment, noHash, head, tail]
  have keyword : "schema".toList.all isNameCharacter = true := by decide
  rw [cutComment_word_append (by decide) (List.all_eq_true.mp keyword), version]

/-- A schema version is read unless it looks like a comment. -/
theorem reads_schemaLine {version : String} (valid : IsSchemaVersion version) :
    Reads number none (schemaLine version :: lines) draft final ↔
      startsComment version.toList = false ∧
        Reads (number + 1) none lines (draft.withSchema version) final := by
  have trimmed := trim_schemaLine valid
  cases comment : startsComment version.toList with
  | false =>
      rw [reads_effect trimmed (by simp) rfl rfl (cutComment_schema valid comment)
        (applyText_schema valid)]
      simp
  | true =>
      obtain ⟨rest, shape⟩ : ∃ rest, version.toList = '#' :: rest := by
        unfold startsComment at comment
        split at comment
        · rename_i rest shape
          exact ⟨rest, shape⟩
        · cases comment
      -- What is left of the statement is the bare keyword.
      have cut : dropTrailingComment ("schema".toList ++ ' ' :: '#' :: rest) =
          "schema".toList := rfl
      have refused : ∃ fault, draft.applyText "schema".toList = .error fault := ⟨_, rfl⟩
      obtain ⟨fault, failed⟩ := refused
      rw [reads_statement (by rw [trimmed]; simp) (by rw [trimmed]; rfl)
        (by rw [trimmed]; rfl), trimmed, shape, cut, failed]
      simp

/-- Reading a written model yields it again. -/
theorem read_toDsl {model : Model} (wellFormed : model.IsWellFormed)
    (version : IsSchemaVersion model.schemaVersion)
    (noComment : startsComment model.schemaVersion.toList = false)
    (noReturn : ∀ condition ∈ model.conditions, '\r' ∉ condition.expression.toList)
    (fits : ∀ condition ∈ model.conditions, FitsBlock condition.expression.toList)
    (initial : String) : read initial model.toDsl = .ok model := by
  let opened := (Draft.start initial).withSchema model.schemaVersion
  let complete := model.conditions.foldl Draft.withCondition opened
  have typesSoFar : complete.model.types = [] := by
    rw [model_withConditions]
    rfl
  obtain ⟨afterConditions, conditions⟩ := @reads_conditions (1 + 1 + 1)
    (model.types.flatMap TypeDefinition.writtenLines) opened
    (model.types.foldl Draft.withTypeDefinition complete) model.conditions
    wellFormed.conditions fits wellFormed.conditionNames
    (fun _ _ => List.not_mem_nil)
  obtain ⟨afterTypes, types⟩ := @reads_types afterConditions [] complete
    (model.types.foldl Draft.withTypeDefinition complete) model.types
    wellFormed.types (by rw [typesSoFar]; exact wellFormed.typeNames)
  rw [List.append_nil] at types
  rw [read_eq_ok_iff, lines_toDsl wellFormed version noReturn]
  refine ⟨model.types.foldl Draft.withTypeDefinition complete, ?_, ?_⟩
  · rw [reads_start, reads_schemaLine version]
    exact ⟨noComment, conditions.mpr (types.mpr (reads_nil.mpr rfl))⟩
  · rw [model_withTypes, model_withConditions]
    rfl

end Dsl

namespace Model

/-- What the written form of a model can hold, beyond what every valid model
satisfies. -/
structure FitsDsl (model : Model) : Prop where
  schemaVersion : Dsl.startsComment model.schemaVersion.toList = false
  targets : ∀ type ∈ model.types, ∀ relation ∈ type.relations, relation.HasNamedTargets
  entries : ∀ type ∈ model.types, ∀ relation ∈ type.relations,
    relation.HasExclusiveEntries
  expressions : ∀ condition ∈ model.conditions,
    Dsl.FitsBlock condition.expression.toList

end Model

namespace Dsl

variable {number : Nat} {lines : List (List Char)} {draft final : Draft}

/-- Written conditions that are read back at their places fit their blocks. -/
theorem fits_of_reads {conditions : List Condition}
    (wellFormed : ∀ condition ∈ conditions, condition.IsWellFormed)
    (distinct : (conditions.map (·.name)).Nodup)
    (fresh : ∀ condition ∈ conditions, condition.name ∉ draft.conditionNames)
    (unbroken : ∀ line ∈ conditions.flatMap Condition.writtenLines ++ lines, '\n' ∉ line)
    (reads : Reads number none (conditions.flatMap Condition.writtenLines ++ lines)
      draft final)
    (kept : draft.model.conditions ++ conditions <+: final.model.conditions) :
    ∀ condition ∈ conditions, FitsBlock condition.expression.toList := by
  induction conditions generalizing number draft with
  | nil =>
      intro condition member
      cases member
  | cons condition conditions induction =>
      obtain ⟨absent, distinctTail⟩ := List.nodup_cons.mp distinct
      have written := wellFormed condition (by simp)
      rw [List.flatMap_cons, List.append_assoc] at reads unbroken
      have keptHead : draft.model.conditions ++ [condition] <+: final.model.conditions := by
        refine List.IsPrefix.trans ?_ kept
        exact ⟨conditions, by simp⟩
      have fits := fitsBlock_of_reads written
        (fun line member => unbroken line (List.mem_append_right _ member)) reads keptHead
      have freshTail : ∀ other ∈ conditions,
          other.name ∉ (draft.withCondition condition).conditionNames := by
        intro other member known
        rcases List.mem_cons.mp known with same | earlier
        · exact absent (List.mem_map.mpr ⟨other, member, same⟩)
        · exact fresh other (by simp [member]) earlier
      rw [reads_writtenLines written fits (fresh condition (by simp))] at reads
      have tail := induction (fun other member => wellFormed other (by simp [member]))
        distinctTail freshTail
        (fun line member => unbroken line (List.mem_append_right _ member)) reads
        (by simpa [Draft.withCondition] using kept)
      intro other member
      rcases List.mem_cons.mp member with rfl | later
      · exact fits
      · exact tail other later

end Dsl

theorem Model.noReturn_of_valid {model : Model} (valid : model.violations = []) :
    ∀ condition ∈ model.conditions, '\r' ∉ condition.expression.toList :=
  fun _ member =>
    (Condition.check_eq_ok_iff_isWellFormed.mp (check_of_valid valid member)).2

theorem Model.read_toDsl_of_fitsDsl {model : Model} (valid : model.violations = [])
    (fits : model.FitsDsl) (initial : String) :
    Dsl.read initial model.toDsl = .ok model :=
  Dsl.read_toDsl (isWellFormed_of_valid valid fits.targets fits.entries)
    (isSchemaVersion_of_valid valid) fits.schemaVersion (noReturn_of_valid valid)
    fits.expressions initial

/-- The written form of a valid model is read as this model exactly if the model
fits it. -/
theorem Model.read_toDsl_eq_ok_iff_fitsDsl {model : Model} (valid : model.violations = [])
    (initial : String) : Dsl.read initial model.toDsl = .ok model ↔ model.FitsDsl := by
  have version := isSchemaVersion_of_valid valid
  constructor
  · intro parsed
    have wellFormed := Dsl.isWellFormed_of_read parsed
    obtain ⟨final, reads, rfl⟩ := Dsl.read_eq_ok_iff.mp parsed
    have unbroken : ∀ line ∈ Text.lines final.model.toDsl, '\n' ∉ line :=
      fun _ => Text.not_mem_of_mem_lines
    rw [Dsl.lines_toDsl wellFormed version (noReturn_of_valid valid)] at reads unbroken
    rw [Dsl.reads_start, Dsl.reads_schemaLine version] at reads
    obtain ⟨noComment, reads⟩ := reads
    refine ⟨noComment, ?_, ?_, ?_⟩
    · intro type inTypes relation inType
      exact ((wellFormed.types type inTypes).relations relation inType).hasNamedTargets
    · intro type inTypes relation inType
      exact ((wellFormed.types type inTypes).relations relation inType).hasExclusiveEntries
    · exact Dsl.fits_of_reads wellFormed.conditions wellFormed.conditionNames
        (fun _ _ => List.not_mem_nil)
        (fun line member =>
          unbroken line (List.mem_cons_of_mem _ (List.mem_cons_of_mem _ member)))
        reads (List.prefix_refl _)
  · intro fits
    exact read_toDsl_of_fitsDsl valid fits initial

/-- A model with a union, a tupleset, and a condition whose expression has braces
on several lines and one in a literal. -/
def Model.folders : Model :=
  { schemaVersion := "1.1"
    types := [
      { name := "user", relations := [] },
      { name := "folder"
        relations := [
          { name := "parent", rule := .direct, userTypes := [.plain "folder"] },
          { name := "viewer"
            rule := .union [.direct, .computed "parent", .through "parent" "viewer"]
            userTypes := [
              { typeName := "folder", relation := some "viewer", wildcard := false
                condition := none },
              { typeName := "user", relation := none, wildcard := true
                condition := some "listed" }] }] }]
    conditions := [
      { name := "listed", parameters := [{ name := "n", type := .int }]
        expression := "n in \x7b\n  '\x7d': 1\n\x7d" }] }

private theorem check_listed :
    ∀ condition ∈ Model.folders.conditions, condition.check = .ok () := by
  intro condition member
  obtain rfl := List.mem_singleton.mp member
  have tokens : Expression.tokenize "n in \x7b\n  '\x7d': 1\n\x7d".toList =
      .ok [.name ['n'], .name ['i', 'n'], .opening .curly, .literal, .choice ':', .number,
        .closing .curly] := by
    simp [Expression.tokenize, Text.isBlank, Expression.isQuote, Expression.afterLiteral,
      isIdentifierStart, isIdentifierCharacter, Expression.isOperatorCharacter,
      Expression.isNumberCharacter, Expression.mark?, Except.map]
  have filled : (Text.trim "n in \x7b\n  '\x7d': 1\n\x7d".toList).isEmpty = false := by
    decide +kernel
  rw [Condition.check_eq_ok_iff]
  refine ⟨by decide +kernel, rfl, by decide +kernel, ?_⟩
  simp only [Expression.check, filled, tokens]
  rfl

theorem Model.violations_folders : folders.violations = [] := by
  apply (violations_eq_nil_iff (by decide)).mpr
  refine ⟨by decide +kernel, by decide +kernel, ?_, ?_⟩
  · have checked := check_listed _ List.mem_cons_self
    simp [folders, conditionViolations] at checked ⊢
    rw [checked]
  · intro type member
    have relations : ∀ type ∈ folders.types,
        folders.relationViolations type [] type.relations = [] := by
      decide +kernel
    have cycles : ∀ type ∈ folders.types, cycleViolations type = [] := by
      simp [folders, cycleViolations, TypeDefinition.cycle?, TypeDefinition.searchFrom,
        TypeDefinition.visit, TypeDefinition.visitAll, TypeDefinition.successors,
        TypeDefinition.references, TypeDefinition.relationNames, Rule.references,
        Rule.referencesList]
    exact ⟨relations type member, cycles type member⟩

theorem Model.fitsDsl_folders : folders.FitsDsl :=
  ⟨by decide +kernel, by decide +kernel, by decide +kernel, by decide +kernel⟩

theorem Model.read_toDsl_folders :
    (folders.violations = [] ∧ folders.FitsDsl) ∧
      Dsl.read defaultSchemaVersion folders.toDsl = .ok folders :=
  ⟨⟨violations_folders, fitsDsl_folders⟩,
    (read_toDsl_eq_ok_iff_fitsDsl violations_folders defaultSchemaVersion).mpr
      fitsDsl_folders⟩

/-- A valid model with a rule that takes a relation from the objects of a tupleset
whose text is no name. -/
def Model.spacedTarget : Model :=
  { schemaVersion := "1.1"
    types := [
      { name := "user", relations := [] },
      { name := "doc"
        relations := [
          { name := "parent", rule := .direct
            userTypes := [
              { typeName := "user", relation := none, wildcard := true
                condition := none }] },
          { name := "viewer", rule := .through "parent" "a b", userTypes := [] }] }]
    conditions := [] }

theorem Model.violations_spacedTarget : spacedTarget.violations = [] := by
  apply (violations_eq_nil_iff (by decide)).mpr
  refine ⟨by decide +kernel, by decide +kernel, rfl, ?_⟩
  intro type member
  have relations : ∀ type ∈ spacedTarget.types,
      spacedTarget.relationViolations type [] type.relations = [] := by
    decide +kernel
  have cycles : ∀ type ∈ spacedTarget.types, cycleViolations type = [] := by
    simp [spacedTarget, cycleViolations, TypeDefinition.cycle?, TypeDefinition.searchFrom,
      TypeDefinition.visit, TypeDefinition.visitAll, TypeDefinition.successors,
      TypeDefinition.references, TypeDefinition.relationNames, Rule.references]
  exact ⟨relations type member, cycles type member⟩

/-- Not every valid model is read back. -/
theorem Model.read_toDsl_spacedTarget_ne :
    spacedTarget.violations = [] ∧
      Dsl.read defaultSchemaVersion spacedTarget.toDsl ≠ .ok spacedTarget := by
  refine ⟨violations_spacedTarget, ?_⟩
  intro parsed
  have wellFormed := Dsl.isWellFormed_of_read parsed
  have type := wellFormed.types _ (List.mem_cons_of_mem _ List.mem_cons_self)
  have viewer := type.relations _ (List.mem_cons_of_mem _ List.mem_cons_self)
  have targets := viewer.hasNamedTargets
  exact absurd (targets "a b" (by decide)) (by decide)

end Rebac
