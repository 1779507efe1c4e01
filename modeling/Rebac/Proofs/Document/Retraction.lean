import Rebac.Proofs.Document.Read
import Rebac.Proofs.Json.Distinct

/-!
# Reading as a retraction of writing

Whatever model the reader of documents yields, valid or not, its own document is read
again.  The reader brings unions into canonical form, drops empty names and trims
expressions, and none of this changes a model that it has yielded.  Only the line breaks
of an expression may change again: a carriage return before the one that the reader has
removed stands before the line feed now.
-/

namespace Rebac

namespace Document

theorem unifyLineBreaks_eq_self_iff (text : List Char) :
    unifyLineBreaks text = text ↔ ¬ ['\r', '\n'] <:+: text := by
  induction text using unifyLineBreaks.induct with
  | case1 => simp [unifyLineBreaks]
  | case2 rest induction =>
      have occurs : ['\r', '\n'] <:+: '\r' :: '\n' :: rest := ⟨[], rest, rfl⟩
      simp [unifyLineBreaks, occurs]
  | case3 character rest noBreak induction =>
      have noPrefix : ¬ ['\r', '\n'] <+: character :: rest := by
        rintro ⟨tail, equal⟩
        obtain ⟨rfl, rfl⟩ := List.cons.inj equal
        exact noBreak tail rfl rfl
      rw [unifyLineBreaks, List.infix_cons_iff, List.cons_inj_right, induction]
      · simp [noPrefix]
      · exact noBreak

theorem getLast?_unifyLineBreaks (text : List Char) :
    (unifyLineBreaks text).getLast? = text.getLast? := by
  induction text using unifyLineBreaks.induct with
  | case1 => rfl
  | case2 rest induction => simp [unifyLineBreaks, List.getLast?_cons, induction]
  | case3 character rest noBreak induction =>
      rw [unifyLineBreaks, List.getLast?_cons, List.getLast?_cons, induction]
      exact noBreak

theorem isTight_unifyLineBreaks {text : List Char} (tight : Text.IsTight text) :
    Text.IsTight (unifyLineBreaks text) := by
  constructor
  · intro character first
    cases text with
    | nil => cases first
    | cons start rest =>
        have solid := tight.head start rfl
        have noReturn : start ≠ '\r' := by
          rintro rfl
          revert solid
          decide
        rw [unifyLineBreaks_cons rest noReturn] at first
        obtain rfl := Option.some.inj first
        exact solid
  · intro character final
    rw [getLast?_unifyLineBreaks] at final
    exact tight.last character final

/-- A rule that is read is a leaf or the canonical union of rules that are read. -/
theorem cases_of_readRule {place : Place} {value : Json} {rule : Rule}
    (read : readRule place value = .ok rule) :
    rule.isUnion = false ∨
      ∃ inner values rules, value = .object [("union", inner)] ∧
        inner.member? "child" = some (.array values) ∧
          readRules place values = .ok rules ∧ rules ≠ [] ∧ rule = Rule.unionOf rules := by
  unfold readRule at read
  split at read
  · cases read
  · rename_i shape inner
    -- The shapes in the order in which the reader tries them: only a union is no leaf.
    split at read
    · obtain rfl := Except.ok.inj read
      exact Or.inl rfl
    · split at read
      · obtain ⟨_, _, rfl⟩ := map_eq_ok_iff.mp read
        exact Or.inl rfl
      · split at read
        · split at read
          · cases read
          · obtain ⟨_, _, rfl⟩ := map_eq_ok_iff.mp read
            exact Or.inl rfl
        · split at read
          · rename_i union
            obtain rfl := union
            split at read
            · cases read
            · rename_i child children found
              split at read
              · cases read
              · rename_i first head
                obtain ⟨others, tail, rfl⟩ := map_eq_ok_iff.mp read
                refine Or.inr ⟨inner, child :: children, first :: others, rfl, found, ?_,
                  by simp, rfl⟩
                rw [readRules, head, tail]
                rfl
            · cases read
          · split at read <;> cases read
  · cases read
  · cases read

mutual

theorem isJoined_of_readRule {place : Place} {value : Json} {rule : Rule}
    (read : readRule place value = .ok rule) : rule.IsJoined := by
  rcases cases_of_readRule read with
    simple | ⟨inner, values, rules, shape, listed, readAll, filled, rfl⟩
  · exact Rule.isJoined_of_not_union simple
  · exact Rule.isJoined_unionOf filled (isJoined_of_readRules readAll)
termination_by sizeOf value
decreasing_by
  have smaller := Json.sizeOf_member? listed
  rw [Json.array.sizeOf_spec] at smaller
  simp only [shape, Json.object.sizeOf_spec, List.cons.sizeOf_spec, Prod.mk.sizeOf_spec]
  omega

theorem isJoined_of_readRules {place : Place} {values : List Json} {rules : List Rule}
    (read : readRules place values = .ok rules) : ∀ rule ∈ rules, rule.IsJoined := by
  intro rule member
  cases values with
  | nil =>
      rw [readRules] at read
      obtain rfl := Except.ok.inj read
      cases member
  | cons value values =>
      rw [readRules] at read
      split at read
      · cases read
      · rename_i first head
        obtain ⟨others, tail, rfl⟩ := map_eq_ok_iff.mp read
        rcases List.mem_cons.mp member with rfl | later
        · exact isJoined_of_readRule head
        · exact isJoined_of_readRules tail rule later
termination_by sizeOf values

end

variable {value : Json}

theorem isDistinct_of_readOptionalObject {place : Place} {key : String}
    {members : List (String × Json)} (distinct : value.IsDistinct)
    (read : readOptionalObject place (value.filledMember? key) = .ok members) :
    (Json.object members).IsDistinct := by
  cases found : value.filledMember? key with
  | none =>
      rw [found] at read
      obtain rfl := Except.ok.inj read
      exact .object (by simp) (by simp)
  | some inner =>
      rw [found] at read
      cases inner with
      | object others =>
          obtain rfl := Except.ok.inj read
          exact distinct.of_filledMember? found
      | _ => cases read

theorem names_of_readRelations {typeName : String} {members : List (String × Json)}
    {relations : List Relation} (read : readRelations typeName members = .ok relations) :
    relations.map (·.name) = members.map (·.1) := by
  induction members generalizing relations with
  | nil =>
      obtain rfl := Except.ok.inj read
      rfl
  | cons member members induction =>
      obtain ⟨rule, _, read⟩ := bind_eq_ok_iff.mp read
      obtain ⟨others, later, read⟩ := bind_eq_ok_iff.mp read
      obtain rfl := Except.ok.inj read
      rw [List.map_cons, List.map_cons, induction later]

theorem isJoined_of_readRelations {typeName : String} {members : List (String × Json)}
    {relations : List Relation} (read : readRelations typeName members = .ok relations) :
    ∀ relation ∈ relations, relation.rule.IsJoined := by
  induction members generalizing relations with
  | nil =>
      obtain rfl := Except.ok.inj read
      intro relation member
      cases member
  | cons member members induction =>
      obtain ⟨rule, readRule, read⟩ := bind_eq_ok_iff.mp read
      obtain ⟨others, later, read⟩ := bind_eq_ok_iff.mp read
      obtain rfl := Except.ok.inj read
      intro relation inRelations
      rcases List.mem_cons.mp inRelations with rfl | inTail
      · exact isJoined_of_readRule readRule
      · exact induction later relation inTail

theorem names_map_unassigned (relations : List Relation) :
    (relations.map unassigned).map (·.name) = relations.map (·.name) := by
  rw [List.map_map]
  rfl

theorem unassigned_assignUserTypes (name : String) (entries : List UserType)
    (relations : List Relation) :
    (assignUserTypes name entries relations).map unassigned = relations.map unassigned := by
  induction relations with
  | nil => rfl
  | cons relation relations induction =>
      rw [assignUserTypes]
      split
      · rfl
      · rw [List.map_cons, List.map_cons, induction]

theorem unassigned_of_readMetadata {typeName : String} {relations final : List Relation}
    {members : List (String × Json)}
    (read : readMetadata typeName relations members = .ok final) :
    final.map unassigned = relations.map unassigned := by
  induction members generalizing relations with
  | nil =>
      obtain rfl := Except.ok.inj read
      rfl
  | cons member members induction =>
      rw [readMetadata] at read
      split at read
      · split at read
        · exact induction read
        · split at read
          · cases read
          · rw [induction read, unassigned_assignUserTypes]
        · cases read
      · cases read

theorem isReadable_of_readType {type : TypeDefinition} (distinct : value.IsDistinct)
    (read : readType value = .ok type) : type.IsReadable := by
  have entries := hasFittingEntries_of_readType read
  obtain ⟨_, _, read⟩ := bind_eq_ok_iff.mp read
  obtain ⟨name, _, read⟩ := bind_eq_ok_iff.mp read
  obtain ⟨rules, object, read⟩ := bind_eq_ok_iff.mp read
  obtain ⟨relations, readRules, read⟩ := bind_eq_ok_iff.mp read
  obtain ⟨metadata, _, read⟩ := bind_eq_ok_iff.mp read
  obtain ⟨final, completed, read⟩ := bind_eq_ok_iff.mp read
  obtain rfl := Except.ok.inj read
  have kept := unassigned_of_readMetadata completed
  constructor
  · rw [TypeDefinition.relationNames, ← names_map_unassigned, kept, names_map_unassigned,
      names_of_readRelations readRules]
    exact (isDistinct_of_readOptionalObject distinct object).keys
  · intro relation member
    have inKept := List.mem_map_of_mem (f := unassigned) member
    rw [kept] at inKept
    obtain ⟨source, inSource, same⟩ := List.mem_map.mp inKept
    have rule : (unassigned source).rule = (unassigned relation).rule :=
      congrArg Relation.rule same
    constructor
    · exact rule ▸ isJoined_of_readRelations readRules source inSource
    · exact entries relation member

theorem isReadable_of_readTypes {values : List Json} {types : List TypeDefinition}
    (distinct : ∀ value ∈ values, value.IsDistinct) (read : readTypes values = .ok types) :
    ∀ type ∈ types, type.IsReadable := by
  intro type member
  obtain ⟨value, inValues, read⟩ := exists_value_of_readTypes read member
  exact isReadable_of_readType (distinct value inValues) read

theorem names_of_readParameters {place : Place} {members : List (String × Json)}
    {parameters : List Parameter} (read : readParameters place members = .ok parameters) :
    parameters.map (·.name) = members.map (·.1) := by
  induction members generalizing parameters with
  | nil =>
      obtain rfl := Except.ok.inj read
      rfl
  | cons member members induction =>
      obtain ⟨typeName, _, read⟩ := bind_eq_ok_iff.mp read
      split at read
      · cases read
      · obtain ⟨others, later, read⟩ := bind_eq_ok_iff.mp read
        obtain rfl := Except.ok.inj read
        rw [List.map_cons, List.map_cons, induction later]

theorem unified_condition_eq_self_iff {condition : Condition} :
    condition.unified = condition ↔ ¬ ['\r', '\n'] <:+: condition.expression.toList := by
  obtain ⟨name, parameters, expression⟩ := condition
  simp [Condition.unified, ← unifyLineBreaks_eq_self_iff, ← String.toList_inj]

theorem isReadable_of_readCondition {name : String} {condition : Condition}
    (distinct : value.IsDistinct) (read : readCondition name value = .ok condition) :
    condition.name = name ∧ condition.IsReadable := by
  obtain ⟨_, _, read⟩ := bind_eq_ok_iff.mp read
  obtain ⟨expression, _, read⟩ := bind_eq_ok_iff.mp read
  obtain ⟨members, object, read⟩ := bind_eq_ok_iff.mp read
  obtain ⟨parameters, readAll, read⟩ := bind_eq_ok_iff.mp read
  obtain rfl := Except.ok.inj read
  refine ⟨rfl, ?_, ?_⟩
  · rw [names_of_readParameters readAll]
    exact (isDistinct_of_readOptionalObject distinct object).keys
  · rw [String.toList_ofList]
    exact isTight_unifyLineBreaks (Text.isTight_trim _)

theorem isReadable_of_readConditions {members : List (String × Json)}
    {conditions : List Condition} (distinct : ∀ member ∈ members, member.2.IsDistinct)
    (read : readConditions members = .ok conditions) :
    conditions.map (·.name) = members.map (·.1) ∧
      ∀ condition ∈ conditions, condition.IsReadable := by
  induction members generalizing conditions with
  | nil =>
      obtain rfl := Except.ok.inj read
      exact ⟨rfl, by simp⟩
  | cons member members induction =>
      obtain ⟨condition, first, read⟩ := bind_eq_ok_iff.mp read
      obtain ⟨others, later, read⟩ := bind_eq_ok_iff.mp read
      obtain rfl := Except.ok.inj read
      obtain ⟨name, readable⟩ := isReadable_of_readCondition (distinct member (by simp)) first
      obtain ⟨names, tail⟩ :=
        induction (fun other inTail => distinct other (by simp [inTail])) later
      constructor
      · rw [List.map_cons, List.map_cons, name, names]
      · intro other inConditions
        rcases List.mem_cons.mp inConditions with rfl | inTail
        · exact readable
        · exact tail other inTail

variable {model : Model}

/-- What the reader yields can be written and read again. -/
theorem isReadable_of_ofJson (distinct : value.IsDistinct) (read : ofJson value = .ok model) :
    model.IsReadable := by
  obtain ⟨_, _, read⟩ := bind_eq_ok_iff.mp read
  obtain ⟨version, _, read⟩ := bind_eq_ok_iff.mp read
  split at read
  · cases read
  · rename_i values listed
    obtain ⟨types, readTypes, read⟩ := bind_eq_ok_iff.mp read
    obtain ⟨members, object, read⟩ := bind_eq_ok_iff.mp read
    obtain ⟨conditions, readConditions, read⟩ := bind_eq_ok_iff.mp read
    obtain rfl := Except.ok.inj read
    have inValues := (distinct.of_member? listed).each_item
    have inMembers := isDistinct_of_readOptionalObject distinct object
    obtain ⟨names, readable⟩ :=
      isReadable_of_readConditions inMembers.each_member readConditions
    refine ⟨isReadable_of_readTypes inValues readTypes, ?_, readable⟩
    rw [names]
    exact inMembers.keys
  · cases read

/-- The document of a model that was read is read again.  The second model has lost the
carriage returns before the line feeds of its expressions, so it is the first one exactly
if there are none. -/
theorem ofJson_toJson_of_ofJson (distinct : value.IsDistinct)
    (read : ofJson value = .ok model) :
    ofJson model.toJson = .ok model.unified ∧
      (ofJson model.toJson = .ok model ↔
        ∀ condition ∈ model.conditions,
          ¬ ['\r', '\n'] <:+: condition.expression.toList) := by
  have again := ofJson_toJson (isReadable_of_ofJson distinct read)
  refine ⟨again, ?_⟩
  rw [again, Except.ok.injEq, unified_eq_self_iff]
  constructor
  · intro same condition member
    exact unified_condition_eq_self_iff.mp (same condition member)
  · intro noBreak condition member
    exact unified_condition_eq_self_iff.mpr (noBreak condition member)

/-- A document with a union inside a union, two direct assignments among its rules. -/
def nested (expression : String) : Json :=
  .object [
    ("schema_version", .string "1.1"),
    ("type_definitions", .array [
      .object [
        ("type", .string "t"),
        ("relations", .object [
          ("a", .object [("union", .object [("child", .array [
            .object [("computedUserset", reference "b")],
            .object [("union", .object [("child", .array [
              .object [("this", .object [])], .object [("this", .object [])]])])]])])])])]]),
    ("conditions", .object [("c", .object [("expression", .string expression)])])]

/-- What the reader makes of `Document.nested`. -/
def flattened (expression : String) : Model :=
  { schemaVersion := "1.1"
    types := [
      { name := "t"
        relations := [
          { name := "a", rule := .union [.direct, .computed "b", .direct], userTypes := [] }] }]
    conditions := [{ name := "c", parameters := [], expression }] }

theorem isDistinct_nested (expression : String) : (nested expression).IsDistinct :=
  Json.isDistinct_of_collapse rfl

theorem ofJson_toJson_of_ofJson_nested :
    (nested " x\r\ny ").IsDistinct ∧
      ofJson (nested " x\r\ny ") = .ok (flattened "x\ny") ∧
        ofJson (flattened "x\ny").toJson = .ok (flattened "x\ny") := by
  have read : ofJson (nested " x\r\ny ") = .ok (flattened "x\ny") := by decide +kernel
  have again := ofJson_toJson_of_ofJson (isDistinct_nested _) read
  refine ⟨isDistinct_nested _, read, again.2.mpr ?_⟩
  decide +kernel

/-- Of two carriage returns before a line feed each reading removes one. -/
theorem ofJson_toJson_doubledReturn_ne :
    (nested "x\r\r\ny").IsDistinct ∧
      ofJson (nested "x\r\r\ny") = .ok (flattened "x\r\ny") ∧
        ofJson (flattened "x\r\ny").toJson ≠ .ok (flattened "x\r\ny") :=
  ⟨isDistinct_nested _, by decide +kernel, by decide +kernel⟩

end Document

end Rebac
