import Rebac.Proofs.Dsl.RoundTrip

/-!
# Canonical texts

Whatever is read from DSL text, its written form is read as the same thing.
Nothing is asked of the model: it may refer to what is not defined, and its
relations may be cyclic.
-/

namespace Rebac

/-- The written form of whatever was read is read as the same model, valid or not,
and so it is its own canonical text. -/
theorem Dsl.read_toDsl_of_read {text : List Char} {model : Model}
    (parsed : read Model.defaultSchemaVersion text = .ok model)
    (noHash : model.schemaVersion.toList.head? ≠ some '#')
    (noReturn : ∀ condition ∈ model.conditions, '\r' ∉ condition.expression.toList)
    (inline : ∀ condition ∈ model.conditions,
      ∀ literal ∈ Expression.literals condition.expression.toList, '\n' ∉ literal) :
    read Model.defaultSchemaVersion model.toDsl = .ok model ∧
      (read Model.defaultSchemaVersion model.toDsl).map Model.toDsl = .ok model.toDsl := by
  have wellFormed := isWellFormed_of_read parsed
  have version := isSchemaVersion_of_read
    (by decide +kernel : IsSchemaVersion Model.defaultSchemaVersion) parsed
  have noComment : startsComment model.schemaVersion.toList = false := by
    unfold startsComment
    split
    · rename_i shape
      rw [shape] at noHash
      exact absurd rfl noHash
    · rfl
  have fits : ∀ condition ∈ model.conditions, FitsBlock condition.expression.toList :=
    fun condition member =>
      fitsBlock_of_check (wellFormed.conditions condition member).checked
        (inline condition member)
  have again := read_toDsl wellFormed version noComment noReturn fits
    Model.defaultSchemaVersion
  exact ⟨again, by rw [again]; rfl⟩

/-- A text with a cycle, an undefined relation, an undefined type and an undefined
condition. -/
def Dsl.looseText : List Char :=
  "condition c(n: bool) \x7bn\n\x7d\ntype t # x\n define a :d or [s with e] or a".toList

/-- What the text says. -/
def Model.loose : Model :=
  { schemaVersion := "1.1"
    types := [
      { name := "t"
        relations := [
          { name := "a", rule := .union [.direct, .computed "d", .computed "a"]
            userTypes := [
              { typeName := "s", relation := none, wildcard := false
                condition := some "e" }] }] }]
    conditions := [
      { name := "c", parameters := [{ name := "n", type := .bool }]
        expression := "n" }] }

private theorem tokenize_looseText :
    Expression.tokenize "n".toList = .ok [.name ['n']] := by
  simp [Expression.tokenize, Text.isBlank, Expression.isQuote, isIdentifierStart,
    Except.map]

private theorem read_looseText :
    Dsl.read Model.defaultSchemaVersion Dsl.looseText = .ok Model.loose := by
  have scanned : Dsl.scan Dsl.looseText = .ok [
      ⟨1, "condition c(n: bool) \x7bn\n\x7d".toList⟩, ⟨3, "type t".toList⟩,
      ⟨4, "define a :d or [s with e] or a".toList⟩] := rfl
  have condition : Condition.ofText "condition c(n: bool) \x7bn\n\x7d".toList =
      .ok ⟨"c", [⟨"n", .bool⟩], "n"⟩ := by
    let headed : Condition := ⟨"c", [⟨"n", .bool⟩], ""⟩
    have layout : "condition c(n: bool) \x7bn\n\x7d".toList =
        headed.headText ++ "n\n\x7d".toList := by decide +kernel
    have found : Condition.blockExpression? "n\n\x7d".toList = some "n".toList := rfl
    have filled : (Text.trim "n".toList).isEmpty = false := by decide +kernel
    have checked : Expression.check ["n"] "n".toList = .ok () := by
      simp only [Expression.check, filled, tokenize_looseText]
      rfl
    have identifier : isIdentifier headed.name = true := by decide
    have fresh : Condition.AreFresh [] headed.parameters := rfl
    rw [layout]
    exact (Condition.ofText_headText_eq_ok_iff identifier fresh _).mpr
      ⟨_, found, checked, rfl⟩
  have body : Relation.Body.ofText "d or [s with e] or a".toList =
      .ok ⟨.union [.direct, .computed "d", .computed "a"],
        [⟨"s", none, false, some "e"⟩]⟩ := by
    have printed : Text.trim "d or [s with e] or a".toList =
        (Rule.union [.computed "d", .direct, .computed "a"]).toText
          [⟨"s", none, false, some "e"⟩] := rfl
    refine Relation.Body.ofText_toText ?_ ?_ printed
    · simp [Rule.IsFilled, Rule.AllFilled]
    · refine ⟨?_, by decide, by decide, ?_⟩
      · intro leaf member
        simp [Rule.leaves, Rule.leavesList] at member
        rcases member with rfl | rfl | rfl
        · exact (by decide +kernel : isName "d" = true)
        · trivial
        · exact (by decide +kernel : isName "a" = true)
      · intro entry member
        obtain rfl := List.mem_singleton.mp member
        exact ⟨by decide +kernel, by simp, by simp; decide +kernel, by simp⟩
  let before : Dsl.Draft :=
    (Dsl.Draft.start Model.defaultSchemaVersion).withCondition
      ⟨"c", [⟨"n", .bool⟩], "n"⟩
  have first : (Dsl.Draft.start Model.defaultSchemaVersion).applyText
      "condition c(n: bool) \x7bn\n\x7d".toList = .ok before := by
    have applied : (Dsl.Draft.start Model.defaultSchemaVersion).applyText
        "condition c(n: bool) \x7bn\n\x7d".toList =
          (Dsl.Draft.start Model.defaultSchemaVersion).addCondition
            "condition c(n: bool) \x7bn\n\x7d".toList := rfl
    rw [applied, Dsl.Draft.addCondition, condition]
    rfl
  have second : before.applyText "type t".toList = .ok (before.withType "t") := rfl
  have third : (before.withType "t").applyText "define a :d or [s with e] or a".toList =
      .ok ((before.withType "t").addRelation 0
        ⟨"a", .union [.direct, .computed "d", .computed "a"],
          [⟨"s", none, false, some "e"⟩]⟩) := by
    have applied : (before.withType "t").applyText
        "define a :d or [s with e] or a".toList =
          (before.withType "t").define " a :d or [s with e] or a".toList := rfl
    have cut : Text.splitOnce ':' " a :d or [s with e] or a".toList =
        some (" a ".toList, "d or [s with e] or a".toList) := rfl
    have name : String.ofList (Text.trim " a ".toList) = "a" := by decide +kernel
    have valid : isName "a" = true := by decide +kernel
    have current : (before.withType "t").current = some 0 := rfl
    have type : (before.withType "t").model.types[0]? = some ⟨"t", []⟩ := rfl
    have fresh : TypeDefinition.relation? ⟨"t", []⟩ "a" = none := rfl
    rw [applied, Dsl.Draft.define]
    simp only [current, type, cut, name, valid, if_true, fresh, body]
    rfl
  rw [Dsl.read, scanned]
  simp only [Dsl.Draft.applyAll, Dsl.Draft.apply, first, second, third]
  rfl

theorem Dsl.read_toDsl_loose :
    (read Model.defaultSchemaVersion looseText = .ok Model.loose ∧
      Model.loose.schemaVersion.toList.head? ≠ some '#' ∧
      (∀ condition ∈ Model.loose.conditions, '\r' ∉ condition.expression.toList) ∧
      ∀ condition ∈ Model.loose.conditions,
        ∀ literal ∈ Expression.literals condition.expression.toList, '\n' ∉ literal) ∧
      read Model.defaultSchemaVersion Model.loose.toDsl = .ok Model.loose := by
  have noHash : Model.loose.schemaVersion.toList.head? ≠ some '#' := by decide +kernel
  have noReturn : ∀ condition ∈ Model.loose.conditions,
      '\r' ∉ condition.expression.toList := by decide +kernel
  have inline : ∀ condition ∈ Model.loose.conditions,
      ∀ literal ∈ Expression.literals condition.expression.toList, '\n' ∉ literal := by
    intro condition member
    obtain rfl := List.mem_singleton.mp member
    have none : Expression.literals "n".toList = [] :=
      Expression.literals_eq_nil tokenize_looseText (by simp)
    rw [none]
    exact List.forall_mem_nil _
  exact ⟨⟨read_looseText, noHash, noReturn, inline⟩,
    (read_toDsl_of_read read_looseText noHash noReturn inline).1⟩

end Rebac
