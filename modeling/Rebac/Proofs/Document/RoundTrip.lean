import Rebac.Document.Writer
import Rebac.Proofs.Json.Printed
import Rebac.Proofs.Rule.Canonical
import Rebac.Proofs.Text.Breaks
import Rebac.Proofs.Text.Trim

/-!
# Reading written documents

The document of a readable model is read as this model up to line breaks: relations,
conditions and parameters have distinct names where they are listed, rules are joined,
direct user types have no empty names and are not qualified twice, and expressions have
no blanks at their ends.  Of a model that fits the document the rules are canonical and
no expression has a carriage return, so it is read as the model itself.
-/

namespace Rebac

open Json (IsPlain)

/-- A direct user type that a document can hold. -/
structure UserType.FitsDocument (entry : UserType) : Prop where
  relation : entry.relation ≠ some ""
  condition : entry.condition ≠ some ""
  exclusive : entry.relation.isSome = true → entry.wildcard = false

structure Relation.FitsDocument (relation : Relation) : Prop where
  canonical : relation.rule.IsCanonical
  entries : ∀ entry ∈ relation.userTypes, entry.FitsDocument

structure TypeDefinition.FitsDocument (type : TypeDefinition) : Prop where
  names : type.relationNames.Nodup
  relations : ∀ relation ∈ type.relations, relation.FitsDocument

structure Condition.FitsDocument (condition : Condition) : Prop where
  names : (condition.parameters.map (·.name)).Nodup
  tight : Text.IsTight condition.expression.toList
  noReturn : '\r' ∉ condition.expression.toList

structure Model.FitsDocument (model : Model) : Prop where
  types : ∀ type ∈ model.types, type.FitsDocument
  names : (model.conditions.map (·.name)).Nodup
  conditions : ∀ condition ∈ model.conditions, condition.FitsDocument

structure Relation.IsReadable (relation : Relation) : Prop where
  joined : relation.rule.IsJoined
  entries : ∀ entry ∈ relation.userTypes, entry.FitsDocument

structure TypeDefinition.IsReadable (type : TypeDefinition) : Prop where
  names : type.relationNames.Nodup
  relations : ∀ relation ∈ type.relations, relation.IsReadable

structure Condition.IsReadable (condition : Condition) : Prop where
  names : (condition.parameters.map (·.name)).Nodup
  tight : Text.IsTight condition.expression.toList

/-- A model that the reader of documents can yield. -/
structure Model.IsReadable (model : Model) : Prop where
  types : ∀ type ∈ model.types, type.IsReadable
  names : (model.conditions.map (·.name)).Nodup
  conditions : ∀ condition ∈ model.conditions, condition.IsReadable

/-- A condition whose expression has lost the carriage returns before its line feeds. -/
def Condition.unified (condition : Condition) : Condition :=
  { condition with
    expression := String.ofList (Document.unifyLineBreaks condition.expression.toList) }

def Model.unified (model : Model) : Model :=
  { model with conditions := model.conditions.map Condition.unified }

theorem Relation.FitsDocument.isReadable {relation : Relation}
    (fits : relation.FitsDocument) : relation.IsReadable :=
  ⟨Rule.isJoined_of_isCanonical fits.canonical, fits.entries⟩

theorem TypeDefinition.FitsDocument.isReadable {type : TypeDefinition}
    (fits : type.FitsDocument) : type.IsReadable :=
  ⟨fits.names, fun relation member => (fits.relations relation member).isReadable⟩

theorem Condition.FitsDocument.isReadable {condition : Condition}
    (fits : condition.FitsDocument) : condition.IsReadable :=
  ⟨fits.names, fits.tight⟩

theorem Model.FitsDocument.isReadable {model : Model} (fits : model.FitsDocument) :
    model.IsReadable where
  types type member := (fits.types type member).isReadable
  names := fits.names
  conditions condition member := (fits.conditions condition member).isReadable

namespace Document

theorem unified_eq_self_iff {model : Model} :
    model.unified = model ↔ ∀ condition ∈ model.conditions, condition.unified = condition := by
  obtain ⟨schemaVersion, types, conditions⟩ := model
  have each := @List.map_inj_left _ _ conditions Condition.unified id
  rw [List.map_id] at each
  simpa [Model.unified] using each

theorem unified_of_fitsDocument {model : Model} (fits : model.FitsDocument) :
    model.unified = model := by
  apply unified_eq_self_iff.mpr
  intro condition member
  have noReturn := (fits.conditions condition member).noReturn
  rw [Condition.unified, unifyLineBreaks_of_not_mem noReturn, String.ofList_toList]

theorem readRule_leaf {leaf : Rule} (simple : leaf.isUnion = false) (place : Place) :
    readRule place leaf.toJson = .ok leaf := by
  cases leaf with
  | direct =>
      rw [Rule.toJson, readRule]
      rfl
  | computed relation =>
      rw [Rule.toJson, readRule]
      rfl
  | through tupleset relation =>
      rw [Rule.toJson, readRule]
      rfl
  | union children => cases simple

theorem readRules_leaves {leaves : List Rule}
    (flat : ∀ leaf ∈ leaves, leaf.isUnion = false) (place : Place) :
    readRules place (Rule.toJsonList leaves) = .ok leaves := by
  induction leaves with
  | nil => rw [Rule.toJsonList, readRules]
  | cons leaf leaves induction =>
      have head := readRule_leaf (flat leaf (by simp)) place
      have tail := induction fun other member => flat other (by simp [member])
      rw [Rule.toJsonList, readRules, head, tail]
      rfl

theorem readRule_union (place : Place) (inner : Json) :
    readRule place (.object [("union", inner)]) =
      match inner.member? "child" with
      | some (.array []) => invalid place .noChild
      | some (.array values) => (readRules place values).map Rule.unionOf
      | _ => invalid place .childNotArray := by
  rw [readRule]
  simp only [reduceIte, String.reduceEq]
  split
  · rename_i empty
    rw [empty]
  · rename_i child children found
    simp only [found, readRules]
    cases readRule place child with
    | error error => rfl
    | ok first => cases readRules place children <;> rfl
  · rename_i noChild others
    cases found : inner.member? "child" with
    | none => rfl
    | some value =>
        cases value with
        | array values =>
            cases values with
            | nil => exact absurd found noChild
            | cons child children => exact absurd found (others child children)
        | _ => rfl

theorem readRule_toJson {rule : Rule} (joined : rule.IsJoined) (place : Place) :
    readRule place rule.toJson = .ok rule := by
  cases rule with
  | union children =>
      have restored := Rule.unionOf_leaves joined
      obtain ⟨several, flat, front⟩ := joined
      rw [Rule.leaves, Rule.leavesList_of_flat flat] at restored
      have leaves := readRules_leaves flat place
      have listed : Json.member? (.object [("child", .array (Rule.toJsonList children))])
          "child" = some (.array (Rule.toJsonList children)) := rfl
      rw [Rule.toJson, readRule_union, listed]
      cases children with
      | nil => cases several
      | cons child children =>
          rw [Rule.toJsonList] at leaves ⊢
          simp only [leaves]
          exact congrArg Except.ok restored
  | _ => exact readRule_leaf rfl place

theorem readOptionalString_relation {entry : UserType} (named : entry.relation ≠ some "")
    (place : Place) :
    readOptionalString place entry.toJson "relation" = .ok entry.relation := by
  obtain ⟨typeName, relation, wildcard, condition⟩ := entry
  cases relation with
  | none => cases wildcard <;> cases condition <;> rfl
  | some relation =>
      have filled : relation.toList.isEmpty = false := by simpa using named
      change Except.ok (if relation.toList.isEmpty then none else some relation) = _
      rw [filled, if_neg Bool.false_ne_true]

theorem readOptionalString_condition {entry : UserType}
    (named : entry.condition ≠ some "") (place : Place) :
    readOptionalString place entry.toJson "condition" = .ok entry.condition := by
  obtain ⟨typeName, relation, wildcard, condition⟩ := entry
  cases condition with
  | none => cases relation <;> cases wildcard <;> rfl
  | some condition =>
      have filled : condition.toList.isEmpty = false := by simpa using named
      have read : ∀ outcome : Except Error (Option String),
          outcome = .ok (if condition.toList.isEmpty then none else some condition) →
            outcome = .ok (some condition) := by
        intro outcome equal
        rw [equal, filled, if_neg Bool.false_ne_true]
      apply read
      cases relation <;> cases wildcard <;> rfl

theorem filledMember?_wildcard (entry : UserType) :
    (entry.toJson.filledMember? "wildcard").isSome = entry.wildcard := by
  obtain ⟨typeName, relation, wildcard, condition⟩ := entry
  cases relation <;> cases wildcard <;> cases condition <;> rfl

theorem readUserType_toJson {entry : UserType} (fits : entry.FitsDocument)
    (place : Place) : readUserType place entry.toJson = .ok entry := by
  have object : readObject place entry.toJson = .ok _ := rfl
  have typeName : readString place entry.toJson "type" = .ok entry.typeName := rfl
  have qualified : (entry.relation.isSome && entry.wildcard) = false := by
    cases set : entry.relation.isSome with
    | false => rfl
    | true => exact fits.exclusive set
  simp only [readUserType, object, typeName, readOptionalString_relation fits.relation,
    readOptionalString_condition fits.condition, filledMember?_wildcard, qualified,
    bind, Except.bind]
  rfl

theorem readUserTypes_map_toJson {entries : List UserType}
    (fits : ∀ entry ∈ entries, entry.FitsDocument) (place : Place) :
    readUserTypes place (entries.map UserType.toJson) = .ok entries := by
  induction entries with
  | nil => rfl
  | cons entry entries induction =>
      have head := readUserType_toJson (fits entry (by simp)) place
      have tail := induction fun other member => fits other (by simp [member])
      rw [List.map_cons, readUserTypes, head, tail]
      rfl

/-- A relation as the first of the two places that spell it says. -/
def unassigned (relation : Relation) : Relation :=
  { relation with userTypes := [] }

theorem readRelations_map_toJson {relations : List Relation}
    (readable : ∀ relation ∈ relations, relation.IsReadable) (typeName : String) :
    readRelations typeName (relations.map fun relation =>
      (relation.name, relation.rule.toJson)) = .ok (relations.map unassigned) := by
  induction relations with
  | nil => rfl
  | cons relation relations induction =>
      have joined := (readable relation (by simp)).joined
      have tail := induction fun other member => readable other (by simp [member])
      rw [List.map_cons, readRelations, readRule_toJson joined, tail]
      rfl

theorem assignUserTypes_append {name : String} {earlier : List Relation}
    (fresh : name ∉ earlier.map (·.name)) (entries : List UserType)
    (relations : List Relation) :
    assignUserTypes name entries (earlier ++ relations) =
      earlier ++ assignUserTypes name entries relations := by
  induction earlier with
  | nil => rfl
  | cons relation earlier induction =>
      simp only [List.map_cons, List.mem_cons, not_or] at fresh
      rw [List.cons_append, assignUserTypes, if_neg (Ne.symm fresh.1), induction fresh.2,
        List.cons_append]

/-- Metadata completes the relations one after the other. -/
theorem readMetadata_map_metadataJson {relations : List Relation}
    (readable : ∀ relation ∈ relations, relation.IsReadable) (typeName : String)
    {earlier : List Relation}
    (distinct : ((earlier ++ relations).map (·.name)).Nodup) :
    readMetadata typeName (earlier ++ relations.map unassigned)
        (relations.map fun relation => (relation.name, relation.metadataJson)) =
      .ok (earlier ++ relations) := by
  induction relations generalizing earlier with
  | nil => rfl
  | cons relation relations induction =>
      have fresh : relation.name ∉ earlier.map (·.name) := by
        rw [List.map_append, List.nodup_append] at distinct
        intro known
        exact distinct.2.2 _ known _ (by simp) rfl
      have listed : (earlier ++ (relation :: relations).map unassigned).any
          (·.name = relation.name) = true := by
        simp [unassigned]
      have entries := readUserTypes_map_toJson (readable relation (by simp)).entries
        (.relation typeName relation.name)
      have found : relation.metadataJson.filledMember? "directly_related_user_types" =
          some (.array (relation.userTypes.map UserType.toJson)) := rfl
      have assigned : assignUserTypes relation.name relation.userTypes
          (earlier ++ (relation :: relations).map unassigned) =
            (earlier ++ [relation]) ++ relations.map unassigned := by
        have sameName : (unassigned relation).name = relation.name := rfl
        rw [assignUserTypes_append fresh, List.map_cons, assignUserTypes, if_pos sameName,
          List.append_assoc]
        rfl
      have tail := @induction (fun other member => readable other (by simp [member]))
        (earlier ++ [relation]) (by simpa using distinct)
      simp only [List.map_cons, readMetadata] at listed assigned tail ⊢
      rw [if_pos listed]
      simp only [found, entries]
      rw [assigned, tail, List.append_assoc, List.singleton_append]

variable {type : TypeDefinition}

theorem readOptionalObject_relations (distinct : type.relationNames.Nodup)
    (place : Place) :
    readOptionalObject place (type.toJson.filledMember? "relations") =
      .ok (type.relations.map fun relation => (relation.name, relation.rule.toJson)) := by
  have rules := Json.ofMembers_map distinct fun relation => relation.rule.toJson
  rw [TypeDefinition.toJson, rules]
  rfl

theorem readOptionalObject_metadata (distinct : type.relationNames.Nodup) (place : Place) :
    readOptionalObject place
        ((type.toJson.member? "metadata").bind (·.filledMember? "relations")) =
      .ok (type.relations.map fun relation => (relation.name, relation.metadataJson)) := by
  have metadata := Json.ofMembers_map distinct Relation.metadataJson
  rw [TypeDefinition.toJson, metadata]
  cases type.relations with
  | nil => rfl
  | cons relation relations => rfl

theorem readType_toJson (readable : type.IsReadable) :
    readType type.toJson = .ok type := by
  have object : readObject .someType type.toJson = .ok _ := rfl
  have name : readString .someType type.toJson "type" = .ok type.name := rfl
  have metadata :=
    @readMetadata_map_metadataJson _ readable.relations type.name [] readable.names
  rw [List.nil_append, List.nil_append] at metadata
  simp only [readType, object, name, readOptionalObject_relations readable.names,
    readOptionalObject_metadata readable.names,
    readRelations_map_toJson readable.relations, metadata, bind, Except.bind]
  rfl

theorem readTypes_map_toJson {types : List TypeDefinition}
    (readable : ∀ type ∈ types, type.IsReadable) :
    readTypes (types.map TypeDefinition.toJson) = .ok types := by
  induction types with
  | nil => rfl
  | cons type types induction =>
      have head := readType_toJson (readable type (by simp))
      have tail := induction fun other member => readable other (by simp [member])
      rw [List.map_cons, readTypes, head, tail]
      rfl

theorem readParameters_map_toJson (parameters : List Parameter) (place : Place) :
    readParameters place (parameters.map fun parameter =>
      (parameter.name, parameter.toJson)) = .ok parameters := by
  induction parameters with
  | nil => rfl
  | cons parameter parameters induction =>
      have spelled : readString place parameter.toJson "type_name" =
          .ok parameter.type.documentName := rfl
      rw [List.map_cons, readParameters]
      simp only [spelled, ParameterType.ofText?_documentName, induction, bind, Except.bind]
      rfl

variable {condition : Condition}

theorem readOptionalObject_parameters
    (distinct : (condition.parameters.map (·.name)).Nodup) (place : Place) :
    readOptionalObject place (condition.toJson.filledMember? "parameters") =
      .ok (condition.parameters.map fun parameter =>
        (parameter.name, parameter.toJson)) := by
  have parameters := Json.ofMembers_map distinct Parameter.toJson
  rw [Condition.toJson, parameters]
  rfl

theorem readCondition_toJson (readable : condition.IsReadable) :
    readCondition condition.name condition.toJson = .ok condition.unified := by
  have object : readObject (.condition condition.name) condition.toJson = .ok _ := rfl
  have expression : readString (.condition condition.name) condition.toJson "expression" =
      .ok condition.expression := rfl
  simp only [readCondition, object, expression,
    readOptionalObject_parameters readable.names, readParameters_map_toJson,
    Text.trim_of_isTight readable.tight, bind, Except.bind]
  rfl

theorem readConditions_map_toJson {conditions : List Condition}
    (readable : ∀ condition ∈ conditions, condition.IsReadable) :
    readConditions (conditions.map fun condition => (condition.name, condition.toJson)) =
      .ok (conditions.map Condition.unified) := by
  induction conditions with
  | nil => rfl
  | cons condition conditions induction =>
      have head := readCondition_toJson (readable condition (by simp))
      have tail := induction fun other member => readable other (by simp [member])
      rw [List.map_cons, readConditions, head, tail]
      rfl

variable {model : Model}

theorem readOptionalObject_conditions (distinct : (model.conditions.map (·.name)).Nodup)
    (place : Place) :
    readOptionalObject place (model.toJson.filledMember? "conditions") =
      .ok (model.conditions.map fun condition => (condition.name, condition.toJson)) := by
  have conditions := Json.ofMembers_map distinct Condition.toJson
  rw [Model.toJson, conditions]
  cases model.conditions with
  | nil => rfl
  | cons condition conditions => rfl

/-- The document of a readable model is read as this model up to line breaks. -/
theorem ofJson_toJson (readable : model.IsReadable) :
    ofJson model.toJson = .ok model.unified := by
  have object : readObject .model model.toJson = .ok _ := rfl
  have version : readString .model model.toJson "schema_version" =
      .ok model.schemaVersion := rfl
  have types : model.toJson.member? "type_definitions" =
      some (.array (model.types.map TypeDefinition.toJson)) := rfl
  simp only [ofJson, object, version, types, readTypes_map_toJson readable.types,
    readOptionalObject_conditions readable.names,
    readConditions_map_toJson readable.conditions, bind, Except.bind]
  rfl

theorem withoutEnvelope_toJson (model : Model) :
    withoutEnvelope model.toJson = model.toJson := by
  obtain ⟨schemaVersion, types, conditions⟩ := model
  cases conditions with
  | nil => rfl
  | cons condition conditions => rfl

theorem isPlain_reference {levels : Nat} (relation : String) :
    IsPlain (levels + 1) (reference relation) :=
  .object (by simp) (by simp [IsPlain.string])

theorem isPlain_leaf {levels : Nat} {leaf : Rule} (simple : leaf.isUnion = false) :
    IsPlain (levels + 3) leaf.toJson := by
  cases leaf with
  | direct =>
      have empty : IsPlain (levels + 2) (.object []) := .object (by simp) (by simp)
      exact .object (by simp) (by simpa using empty)
  | computed relation =>
      exact .object (by simp) (by simpa using isPlain_reference relation)
  | through tupleset relation =>
      have inner : IsPlain (levels + 2) (.object [("tupleset", reference tupleset),
          ("computedUserset", reference relation)]) :=
        .object (by simp) (by simp [isPlain_reference])
      exact .object (by simp) (by simpa using inner)
  | union children => cases simple

theorem mem_toJsonList {rules : List Rule} {value : Json}
    (member : value ∈ Rule.toJsonList rules) : ∃ rule ∈ rules, value = rule.toJson := by
  induction rules with
  | nil => cases member
  | cons rule rules induction =>
      rcases List.mem_cons.mp member with rfl | later
      · exact ⟨rule, by simp, rfl⟩
      · obtain ⟨other, inTail, rfl⟩ := induction later
        exact ⟨other, by simp [inTail], rfl⟩

theorem isPlain_rule {levels : Nat} {rule : Rule} (canonical : rule.IsCanonical) :
    IsPlain (levels + 6) rule.toJson := by
  cases rule with
  | union children =>
      have leaves : IsPlain (levels + 4) (.array (Rule.toJsonList children)) := by
        apply IsPlain.array
        intro item member
        obtain ⟨leaf, inChildren, rfl⟩ := mem_toJsonList member
        exact isPlain_leaf (canonical.2.1 leaf inChildren)
      have inner : IsPlain (levels + 5)
          (.object [("child", .array (Rule.toJsonList children))]) :=
        .object (by simp) (by simpa using leaves)
      exact .object (by simp) (by simpa using inner)
  | _ => exact isPlain_leaf rfl

theorem isPlain_userType {levels : Nat} (entry : UserType) :
    IsPlain (levels + 2) entry.toJson := by
  have empty : IsPlain (levels + 1) (.object []) := .object (by simp) (by simp)
  obtain ⟨typeName, relation, wildcard, condition⟩ := entry
  apply IsPlain.object
  · cases relation <;> cases wildcard <;> cases condition <;> simp
  · cases relation <;> cases wildcard <;> cases condition <;> simp [IsPlain.string, empty]

theorem isPlain_metadataJson {levels : Nat} (relation : Relation) :
    IsPlain (levels + 4) relation.metadataJson := by
  have entries : IsPlain (levels + 3) (.array (relation.userTypes.map UserType.toJson)) := by
    apply IsPlain.array
    intro item member
    obtain ⟨entry, _, rfl⟩ := List.mem_map.mp member
    exact isPlain_userType entry
  exact .object (by simp) (by simpa using entries)

/-- Named data with distinct names as an object. -/
theorem isPlain_ofMembers {α : Type} {name : α → String} {items : List α}
    (distinct : (items.map name).Nodup) {value : α → Json} {levels : Nat}
    (each : ∀ item ∈ items, IsPlain levels (value item)) :
    IsPlain (levels + 1) (.ofMembers (items.map fun item => (name item, value item))) := by
  rw [Json.ofMembers_map distinct]
  apply IsPlain.object
  · rw [List.map_map]
    exact distinct
  · intro member inItems
    obtain ⟨item, inList, rfl⟩ := List.mem_map.mp inItems
    exact each item inList

theorem isPlain_type {levels : Nat} (fits : type.FitsDocument) :
    IsPlain (levels + 8) type.toJson := by
  have rules : IsPlain (levels + 7) (.ofMembers (type.relations.map fun relation =>
      (relation.name, relation.rule.toJson))) :=
    isPlain_ofMembers fits.names fun relation member =>
      isPlain_rule (fits.relations relation member).canonical
  have metadata : IsPlain (levels + 6) (.ofMembers (type.relations.map fun relation =>
      (relation.name, relation.metadataJson))) :=
    isPlain_ofMembers fits.names fun relation _ => isPlain_metadataJson relation
  have inner : IsPlain (levels + 7) (.object [("relations",
      .ofMembers (type.relations.map fun relation =>
        (relation.name, relation.metadataJson)))]) :=
    .object (by simp) (by simpa using metadata)
  apply IsPlain.object
  · split <;> simp
  · split <;> simp [IsPlain.string, rules, inner]

theorem isPlain_condition {levels : Nat} (fits : condition.FitsDocument) :
    IsPlain (levels + 3) condition.toJson := by
  have parameters : IsPlain (levels + 2) (.ofMembers (condition.parameters.map
      fun parameter => (parameter.name, parameter.toJson))) :=
    isPlain_ofMembers fits.names fun parameter _ =>
      .object (by simp) (by simp [IsPlain.string])
  exact .object (by simp) (by simp [IsPlain.string, parameters])

theorem isPlain_toJson {levels : Nat} (fits : model.FitsDocument) :
    IsPlain (levels + 10) model.toJson := by
  have types : IsPlain (levels + 9) (.array (model.types.map TypeDefinition.toJson)) := by
    apply IsPlain.array
    intro item member
    obtain ⟨type, inModel, rfl⟩ := List.mem_map.mp member
    exact isPlain_type (fits.types type inModel)
  have conditions : IsPlain (levels + 9) (.ofMembers (model.conditions.map
      fun condition => (condition.name, condition.toJson))) :=
    isPlain_ofMembers fits.names fun condition member =>
      isPlain_condition (fits.conditions condition member)
  apply IsPlain.object
  · split <;> simp
  · split <;> simp [IsPlain.string, types, conditions]

/-- The written document of a model is read as this model. -/
theorem read_toJsonText (fits : model.FitsDocument) :
    read model.toJsonText = .ok model := by
  have plain : IsPlain Json.maximalDepth model.toJson :=
    @isPlain_toJson model 117 fits
  rw [read, Model.toJsonText, Json.read_toPretty plain]
  simp only [withoutEnvelope_toJson, ofJson_toJson fits.isReadable,
    unified_of_fitsDocument fits]

end Document

end Rebac
