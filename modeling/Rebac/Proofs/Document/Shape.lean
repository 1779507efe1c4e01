import Rebac.Proofs.Document.Read
import Rebac.Proofs.Document.Slot

/-!
# Shapes that the reader does not check

The reader cannot tell a document from the mended one: whatever stands for a wildcard, for
a direct assignment, for the metadata of a type or of a relation, it takes for an empty
object.  The level of metadata between these two is checked: a document that is read has
objects there, and any other value is an error.
-/

namespace Rebac

namespace Document

variable {slot : Slot} {value : Json}

theorem readObject_mend (checked : slot.isUnchecked = false) (place : Place) (value : Json) :
    readObject place (mend slot value) = (readObject place value).map (mendMembers slot) := by
  cases value with
  | object members => rfl
  | null =>
      rw [mend]
      split
      · rename_i direct
        rw [direct] at checked
        cases checked
      · rfl
  | _ =>
      rw [mend, Slot.repair, checked]
      rfl

theorem readOptionalObject_mend (checked : slot.isUnchecked = false) (place : Place)
    (found : Option Json) :
    readOptionalObject place (found.map (mend slot)) =
      (readOptionalObject place found).map (mendMembers slot) := by
  cases found with
  | none => rfl
  | some value => exact readObject_mend checked place value

theorem member?_mend_plain {key : String} (plain : slot.member key = .other) :
    (mend slot value).member? key = value.member? key := by
  rw [member?_mend, plain]
  cases value.member? key with
  | none => rfl
  | some inner => rw [Option.map_some, mend_other]

theorem readString_mend {field : String} (plain : slot.member field = .other)
    (place : Place) : readString place (mend slot value) field = readString place value field := by
  rw [readString, member?_mend_plain plain, readString]

theorem readOptionalString_mend {field : String} (plain : slot.member field = .other)
    (place : Place) :
    readOptionalString place (mend slot value) field =
      readOptionalString place value field := by
  rw [readOptionalString, member?_mend_plain plain, readOptionalString]

theorem Slot.member_rule {shape : String} (direct : shape ≠ "this") (union : shape ≠ "union") :
    Slot.member .rule shape = .other := by
  unfold Slot.member
  split <;> simp_all

mutual

theorem readRule_mend (place : Place) (value : Json) :
    readRule place (mend .rule value) = readRule place value := by
  match value with
  | .null => rfl
  | .bool value => rfl
  | .number value => rfl
  | .string text => rfl
  | .array items => simp [mend, Slot.repair, Slot.isUnchecked, readRule]
  | .object [] => rfl
  | .object (first :: second :: others) => simp [mend, mendMembers, readRule]
  | .object [(shape, inner)] =>
      -- Of all shapes only these two have slots that mending changes.
      by_cases direct : shape = "this"
      · subst direct
        rw [mend, mendMembers, mendMembers, readRule, readRule]
        rfl
      by_cases union : shape = "union"
      · subst union
        change readRule place (.object [("union", mend .union inner)]) = _
        rw [readRule_union, readRule_union, member?_mend]
        cases listed : inner.member? "child" with
        | none => rfl
        | some children =>
            cases children with
            | array values =>
                cases values with
                | nil => rfl
                | cons value values =>
                    have same := readRules_mend place (value :: values)
                    exact congrArg (Except.map Rule.unionOf) same
            | _ => rfl
      · rw [mend, mendMembers, mendMembers, Slot.member_rule direct union, mend_other]
termination_by sizeOf value
decreasing_by
  have smaller := Json.sizeOf_member? listed
  rw [Json.array.sizeOf_spec] at smaller
  simp only [Json.object.sizeOf_spec, List.cons.sizeOf_spec, Prod.mk.sizeOf_spec] at *
  omega

theorem readRules_mend (place : Place) (values : List Json) :
    readRules place (mendItems .rule values) = readRules place values := by
  match values with
  | [] => rfl
  | value :: values =>
      rw [mendItems, readRules, readRules, readRule_mend place value,
        readRules_mend place values]
termination_by sizeOf values

end

theorem readUserType_mend (place : Place) (value : Json) :
    readUserType place (mend .entry value) = readUserType place value := by
  have object := @readObject_mend .entry rfl place value
  have typeName := @readString_mend .entry value "type" rfl place
  have relation := @readOptionalString_mend .entry value "relation" rfl place
  have condition := @readOptionalString_mend .entry value "condition" rfl place
  have wildcard := @isSome_filledMember?_mend .entry value "wildcard" (by decide)
  simp only [readUserType, object, typeName, relation, condition, wildcard]
  cases readObject place value <;> rfl

theorem readUserTypes_mend (place : Place) (values : List Json) :
    readUserTypes place (mendItems .entry values) = readUserTypes place values := by
  induction values with
  | nil => rfl
  | cons value values induction =>
      rw [mendItems, readUserTypes, readUserTypes, readUserType_mend, induction]

theorem readRelations_mend (typeName : String) (members : List (String × Json)) :
    readRelations typeName (mendMembers .rules members) = readRelations typeName members := by
  induction members with
  | nil => rfl
  | cons member members induction =>
      have rule := readRule_mend (.relation typeName member.1) member.2
      rw [mendMembers, readRelations, readRelations, induction]
      exact congrArg (· >>= _) rule

theorem readMetadata_mend (typeName : String) (relations : List Relation)
    (members : List (String × Json)) :
    readMetadata typeName relations (mendMembers .assignments members) =
      readMetadata typeName relations members := by
  induction members generalizing relations with
  | nil => rfl
  | cons member members induction =>
      obtain ⟨name, value⟩ := member
      have entries : (mend .assignment value).filledMember? "directly_related_user_types" =
          (value.filledMember? "directly_related_user_types").map (mend .entries) :=
        filledMember?_mend (by decide)
      change readMetadata typeName relations
        ((name, mend .assignment value) :: mendMembers .assignments members) = _
      rw [readMetadata, readMetadata, entries]
      split
      · cases value.filledMember? "directly_related_user_types" with
        | none => exact induction relations
        | some found =>
            cases found with
            | array values =>
                have mended : mend .entries (.array values) =
                    .array (mendItems .entry values) := rfl
                simp only [Option.map_some, mended, readUserTypes_mend, induction]
            | _ => rfl
      · rfl

theorem readType_mend (value : Json) : readType (mend .type value) = readType value := by
  have object := @readObject_mend .type rfl .someType value
  have name := @readString_mend .type value "type" rfl .someType
  have rules : (mend .type value).filledMember? "relations" =
      (value.filledMember? "relations").map (mend .rules) :=
    filledMember?_mend (by decide)
  have metadata : ((mend .type value).member? "metadata").bind (·.filledMember? "relations") =
      ((value.member? "metadata").bind (·.filledMember? "relations")).map
        (mend .assignments) := by
    rw [member?_mend]
    cases value.member? "metadata" with
    | none => rfl
    | some inner => exact @filledMember?_mend .metadata inner "relations" (by decide)
  have rulesObject := @readOptionalObject_mend .rules rfl
  have metadataObject := @readOptionalObject_mend .assignments rfl
  simp only [readType, object, name, rules, metadata, rulesObject, metadataObject, map_bind,
    readRelations_mend, readMetadata_mend]

theorem readTypes_mend (values : List Json) :
    readTypes (mendItems .type values) = readTypes values := by
  induction values with
  | nil => rfl
  | cons value values induction =>
      rw [mendItems, readTypes, readTypes, readType_mend, induction]

/-- The reader does not tell a document from the mended one. -/
theorem ofJson_mend (document : Json) : ofJson (mend .model document) = ofJson document := by
  have object := @readObject_mend .model rfl .model document
  have version := @readString_mend .model document "schema_version" rfl .model
  have types : (mend .model document).member? "type_definitions" =
      (document.member? "type_definitions").map (mend .types) :=
    member?_mend .model document "type_definitions"
  have conditions : (mend .model document).filledMember? "conditions" =
      document.filledMember? "conditions" := by
    rw [Json.filledMember?, member?_mend_plain rfl, Json.filledMember?]
  simp only [ofJson, object, version, types, conditions, map_bind]
  cases document.member? "type_definitions" with
  | none => rfl
  | some found =>
      cases found with
      | array values =>
          have mended : mend .types (.array values) = .array (mendItems .type values) := rfl
          simp only [Option.map_some, mended, readTypes_mend]
      | _ => rfl

section Checked

variable {document : Json}

theorem Stands.isDistinct {root : Slot} (distinct : document.IsDistinct)
    (stands : Stands root document slot value) : value.IsDistinct := by
  induction stands with
  | here => exact distinct
  | item _ member _ induction => exact induction.each_item _ member
  | member _ listed _ induction => exact induction.each_member _ listed

theorem Stands.of_model (stands : Stands .model document .model value) : value = document := by
  cases stands with
  | here => rfl
  | @item slot _ _ _ _ _ step => cases slot <;> cases step
  | member _ _ step =>
      unfold Slot.member at step
      split at step <;> cases step

theorem Stands.of_types (stands : Stands .model document .types value) :
    ∃ members, document = .object members ∧ ("type_definitions", value) ∈ members := by
  cases stands with
  | @item slot _ _ _ _ _ step => cases slot <;> cases step
  | member object listed step =>
      unfold Slot.member at step
      split at step <;> cases step
      exact ⟨_, object.of_model.symm, listed⟩

theorem Stands.of_type (stands : Stands .model document .type value) :
    ∃ items, Stands .model document .types (.array items) ∧ value ∈ items := by
  cases stands with
  | @item slot _ _ _ array member step =>
      cases slot <;> cases step
      exact ⟨_, array, member⟩
  | member _ _ step =>
      unfold Slot.member at step
      split at step <;> cases step

theorem Stands.of_metadata (stands : Stands .model document .metadata value) :
    ∃ members, Stands .model document .type (.object members) ∧
      ("metadata", value) ∈ members := by
  cases stands with
  | @item slot _ _ _ _ _ step => cases slot <;> cases step
  | member object listed step =>
      unfold Slot.member at step
      split at step <;> cases step
      exact ⟨_, object, listed⟩

theorem Stands.of_assignments (stands : Stands .model document .assignments value) :
    ∃ members, Stands .model document .metadata (.object members) ∧
      ("relations", value) ∈ members := by
  cases stands with
  | @item slot _ _ _ _ _ step => cases slot <;> cases step
  | member object listed step =>
      unfold Slot.member at step
      split at step <;> cases step
      exact ⟨_, object, listed⟩

theorem readOptionalObject_of_stands {model : Model} (distinct : document.IsDistinct)
    (read : ofJson document = .ok model) (stands : Stands .model document .type value) :
    ∃ name members, readOptionalObject (.type name)
      ((value.member? "metadata").bind (·.filledMember? "relations")) = .ok members := by
  obtain ⟨items, types, inItems⟩ := stands.of_type
  obtain ⟨outer, rfl, listed⟩ := types.of_types
  have found : Json.member? (.object outer) "type_definitions" = some (.array items) :=
    Json.find?_of_mem distinct.keys listed
  obtain ⟨_, _, read⟩ := bind_eq_ok_iff.mp read
  obtain ⟨version, _, read⟩ := bind_eq_ok_iff.mp read
  simp only [found] at read
  obtain ⟨types, readAll, _⟩ := bind_eq_ok_iff.mp read
  obtain ⟨type, read⟩ := exists_readType_of_mem readAll inItems
  obtain ⟨_, _, read⟩ := bind_eq_ok_iff.mp read
  obtain ⟨name, _, read⟩ := bind_eq_ok_iff.mp read
  obtain ⟨rules, _, read⟩ := bind_eq_ok_iff.mp read
  obtain ⟨relations, _, read⟩ := bind_eq_ok_iff.mp read
  obtain ⟨metadata, readMetadata, _⟩ := bind_eq_ok_iff.mp read
  exact ⟨name, metadata, readMetadata⟩

theorem fits_assignments {model : Model} (distinct : document.IsDistinct)
    (read : ofJson document = .ok model)
    (stands : Stands .model document .assignments value) :
    Slot.assignments.fits value = true := by
  obtain ⟨inner, metadata, listed⟩ := stands.of_assignments
  obtain ⟨members, type, inType⟩ := metadata.of_metadata
  obtain ⟨name, read, readMetadata⟩ := readOptionalObject_of_stands distinct read type
  have found : Json.member? (.object members) "metadata" = some (.object inner) :=
    Json.find?_of_mem (type.isDistinct distinct).keys inType
  have inside : Json.member? (.object inner) "relations" = some value :=
    Json.find?_of_mem (metadata.isDistinct distinct).keys listed
  rw [found, Option.bind_some, Json.filledMember?, inside] at readMetadata
  cases value with
  | null => rfl
  | object others => rfl
  | _ => cases readMetadata

/-- The reader of a document comes to the metadata about the relations of a type: it
has read whatever stands before. -/
inductive ComesTo (document : Json) (name : String) (found : Json) : Prop where
  | intro {version : String} {front back : List Json} {types : List TypeDefinition}
      {type : Json} {rules : List (String × Json)} {relations : List Relation}
      (version : readString .model document "schema_version" = .ok version)
      (listed : document.member? "type_definitions" = some (.array (front ++ type :: back)))
      (earlier : readTypes front = .ok types)
      (named : readString .someType type "type" = .ok name)
      (object : readOptionalObject (.type name) (type.filledMember? "relations") = .ok rules)
      (spelled : readRelations name rules = .ok relations)
      (metadata : (type.member? "metadata").bind (·.filledMember? "relations") = some found)

theorem exists_object_of_member? {key : String} {inner : Json} (place : Place)
    (found : value.member? key = some inner) :
    ∃ members, readObject place value = .ok members := by
  cases value with
  | object members => exact ⟨members, rfl⟩
  | _ => cases found

theorem exists_object_of_readString {place : Place} {field text : String} (other : Place)
    (read : readString place value field = .ok text) :
    ∃ members, readObject other value = .ok members := by
  unfold readString at read
  split at read
  · rename_i found
    exact exists_object_of_member? other found
  · cases read
  · cases read

theorem readTypes_append_cons {front back : List Json} {types : List TypeDefinition}
    {error : Error} (earlier : readTypes front = .ok types)
    (failed : readType value = .error error) :
    readTypes (front ++ value :: back) = .error error := by
  induction front generalizing types with
  | nil =>
      rw [List.nil_append, readTypes, failed]
      rfl
  | cons first front induction =>
      obtain ⟨type, head, earlier⟩ := bind_eq_ok_iff.mp earlier
      obtain ⟨others, later, _⟩ := bind_eq_ok_iff.mp earlier
      rw [List.cons_append, readTypes, head, induction later]
      rfl

/-- Metadata about the relations of a type that is no object is an error at that type. -/
theorem ofJson_of_comesTo {name : String} {found : Json} (comes : ComesTo document name found)
    (noObject : found.isObject = false) :
    ofJson document = .error (.fault (.type name) (.invalid .notObject)) := by
  obtain ⟨version, listed, earlier, named, object, spelled, metadata⟩ := comes
  rename_i _ front _ _ type _ _
  obtain ⟨_, outer⟩ := exists_object_of_member? .model listed
  obtain ⟨_, inner⟩ := exists_object_of_readString .someType named
  have unfit : readOptionalObject (.type name) (some found) =
      .error (.fault (.type name) (.invalid .notObject)) := by
    cases found with
    | object members => cases noObject
    | _ => rfl
  have failed : readType type = .error (.fault (.type name) (.invalid .notObject)) := by
    simp only [readType, inner, named, object, spelled, metadata, unfit, bind, Except.bind]
  simp only [ofJson, outer, version, listed, readTypes_append_cons earlier failed, bind,
    Except.bind]

/-- Of a document that is read, the slots are well shaped exactly if none needs mending. -/
theorem isWellShaped_iff {model : Model} (distinct : document.IsDistinct)
    (read : ofJson document = .ok model) :
    IsWellShaped document ↔ mend .model document = document := by
  rw [mend_eq_self_iff]
  constructor
  · intro wellShaped slot value stands _
    exact wellShaped slot value stands
  · intro fits slot value stands
    by_cases checked : slot = .assignments
    · subst checked
      exact fits_assignments distinct read stands
    · exact fits slot value stands checked

theorem isWellShaped_mend {model : Model} (distinct : document.IsDistinct)
    (read : ofJson document = .ok model) : IsWellShaped (mend .model document) := by
  have again := (ofJson_mend document).trans read
  exact (isWellShaped_iff (isDistinct_mend distinct .model) again).mpr (mend_mend _ _)

end Checked

/-- The reader cannot tell a document from the mended one, whatever stands in the slots of
wildcards, of direct assignments and of metadata.  A document that is read needs no mending
exactly if all its slots hold values of the shape that they ask for, and mending makes them
do so.  Only the metadata about the relations of a type is checked. -/
theorem reading_ignores_shapes {document : Json} (distinct : document.IsDistinct) :
    ofJson (mend .model document) = ofJson document ∧
    (∀ model, ofJson document = .ok model →
      (IsWellShaped document ↔ mend .model document = document) ∧
        IsWellShaped (mend .model document) ∧
          ∀ value, Stands .model document .assignments value →
            Slot.assignments.fits value = true) ∧
    ∀ name found, ComesTo document name found → found.isObject = false →
      ofJson document = .error (.fault (.type name) (.invalid .notObject)) := by
  refine ⟨ofJson_mend document, fun model read => ⟨?_, ?_, ?_⟩, ?_⟩
  · exact isWellShaped_iff distinct read
  · exact isWellShaped_mend distinct read
  · intro value stands
    exact fits_assignments distinct read stands
  · intro name found comes noObject
    exact ofJson_of_comesTo comes noObject

/-- A type with one relation and some metadata about it. -/
def typeWithMetadata (metadata : Json) : Json :=
  .object [
    ("type", .string "t"),
    ("relations", .object [("a", .object [("this", .object [])])]),
    ("metadata", .object [("relations", metadata)])]

def withMetadata (metadata : Json) : Json :=
  .object [
    ("schema_version", .string "1.1"),
    ("type_definitions", .array [typeWithMetadata metadata])]

/-- Metadata whose only wildcard is false. -/
def withoutWildcard : Json :=
  .object [
    ("a", .object [
      ("directly_related_user_types", .array [
        .object [("type", .string "t"), ("wildcard", .bool false)]])])]

/-- Every object of the only type is in the only relation. -/
def everyone : Model :=
  { schemaVersion := "1.1"
    types := [
      { name := "t"
        relations := [
          { name := "a"
            rule := .direct
            userTypes := [
              { typeName := "t", relation := none, wildcard := true, condition := none }] }] }]
    conditions := [] }

theorem stands_withMetadata (metadata : Json) :
    Stands .model (withMetadata metadata) .assignments metadata := by
  have types : Stands .model (withMetadata metadata) .types _ :=
    .member .here (List.mem_cons_of_mem _ List.mem_cons_self) rfl
  have type : Stands .model (withMetadata metadata) .type _ :=
    .item types List.mem_cons_self rfl
  have inner : Stands .model (withMetadata metadata) .metadata _ :=
    .member type (List.mem_cons_of_mem _ (List.mem_cons_of_mem _ List.mem_cons_self)) rfl
  exact .member inner List.mem_cons_self rfl

theorem ofJson_withoutWildcard : ofJson (withMetadata withoutWildcard) = .ok everyone := by
  decide +kernel

theorem comesTo_withMetadata {metadata : Json} (filled : metadata.isNull = false) :
    ComesTo (withMetadata metadata) "t" metadata := by
  have found : ((Json.object [("relations", metadata)]).filledMember? "relations") =
      some metadata := by
    simp [Json.filledMember?, Json.member?, Json.find?, filled]
  have spelled : readRelations "t" [("a", .object [("this", .object [])])] =
      .ok [{ name := "a", rule := .direct, userTypes := [] }] := by decide +kernel
  exact @ComesTo.intro (withMetadata metadata) "t" metadata "1.1" [] [] []
    (typeWithMetadata metadata) _ _ rfl rfl rfl rfl rfl spelled found

theorem reading_ignores_shapes_withoutWildcard :
    ((withMetadata withoutWildcard).IsDistinct ∧
      ofJson (withMetadata withoutWildcard) = .ok everyone ∧
        IsWellShaped (mend .model (withMetadata withoutWildcard)) ∧
          Stands .model (withMetadata withoutWildcard) .assignments withoutWildcard ∧
            Slot.assignments.fits withoutWildcard = true) ∧
      (withMetadata (.bool false)).IsDistinct ∧
        ComesTo (withMetadata (.bool false)) "t" (.bool false) ∧
          ofJson (withMetadata (.bool false)) =
            .error (.fault (.type "t") (.invalid .notObject)) := by
  have distinct : (withMetadata withoutWildcard).IsDistinct := Json.isDistinct_of_collapse rfl
  have read := ofJson_withoutWildcard
  have stands := stands_withMetadata withoutWildcard
  have others : (withMetadata (.bool false)).IsDistinct := Json.isDistinct_of_collapse rfl
  have comes : ComesTo (withMetadata (.bool false)) "t" (.bool false) :=
    comesTo_withMetadata rfl
  obtain ⟨_, accepted, _⟩ := reading_ignores_shapes distinct
  obtain ⟨_, mended, checked⟩ := accepted everyone read
  obtain ⟨_, _, refused⟩ := reading_ignores_shapes others
  exact ⟨⟨distinct, read, mended, stands, checked _ stands⟩, others, comes,
    refused _ _ comes rfl⟩

/-- A wildcard that is false is read as every user. -/
theorem not_isWellShaped_withoutWildcard :
    (withMetadata withoutWildcard).IsDistinct ∧
      ofJson (withMetadata withoutWildcard) = .ok everyone ∧
        Stands .model (withMetadata withoutWildcard) .wildcard (.bool false) ∧
          ¬ IsWellShaped (withMetadata withoutWildcard) := by
  have assignment : Stands .model (withMetadata withoutWildcard) .assignment _ :=
    .member (stands_withMetadata withoutWildcard) List.mem_cons_self rfl
  have entries : Stands .model (withMetadata withoutWildcard) .entries _ :=
    .member assignment List.mem_cons_self rfl
  have entry : Stands .model (withMetadata withoutWildcard) .entry _ :=
    .item entries List.mem_cons_self rfl
  have wildcard : Stands .model (withMetadata withoutWildcard) .wildcard (.bool false) :=
    .member entry (List.mem_cons_of_mem _ List.mem_cons_self) rfl
  refine ⟨Json.isDistinct_of_collapse rfl, ofJson_withoutWildcard, wildcard,
    fun wellShaped => ?_⟩
  cases wellShaped .wildcard (.bool false) wildcard

end Document

end Rebac
