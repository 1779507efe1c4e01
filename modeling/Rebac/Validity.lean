import Rebac.Condition.Block
import Rebac.Validity.Cycle
import Rebac.Validity.Violation

/-!
# Validity of models

A model is valid if it has no violations.  All violations are listed, in
declaration order, whatever else is wrong with the model; only a model without
types is not looked at any further.
-/

namespace Rebac

/-- The violation of a name that cannot be spelled in its role. -/
def NameRole.violations (role : NameRole) (name : String) : List Violation :=
  if isName name then [] else [.invalidName role name]

namespace Model

def schemaViolations (model : Model) : List Violation :=
  let version := model.schemaVersion.toList
  if version.isEmpty || version.any Text.isBlank then
    [.invalidSchemaVersion model.schemaVersion]
  else []

/-- Violations in the names of some types, given the names before them. -/
def typeNameViolations (earlier : List String) :
    List TypeDefinition → List Violation
  | [] => []
  | type :: types =>
      NameRole.type.violations type.name ++
        (if earlier.contains type.name then [.duplicateType type.name] else []) ++
        typeNameViolations (type.name :: earlier) types

/-- Violations in some conditions, given the names before them. -/
def conditionViolations (earlier : List String) :
    List Condition → List Violation
  | [] => []
  | condition :: conditions =>
      (if earlier.contains condition.name then
        [Violation.duplicateCondition condition.name] else []) ++
        (match condition.check with
        | .error cause => [.invalidCondition condition.name cause]
        | .ok () => []) ++
        conditionViolations (condition.name :: earlier) conditions

/-- Whether an entry points to something that the model defines. -/
def hasSubject (model : Model) (entry : UserType) : Bool :=
  match entry.relation with
  | some relation => model.hasRelation entry.typeName relation
  | none => model.hasType entry.typeName

/-- Violations in one direct user type. -/
def userTypeViolations (model : Model) (site : Site) (entry : UserType) :
    List Violation :=
  NameRole.type.violations entry.typeName ++
    entry.relation.toList.flatMap NameRole.relation.violations ++
    entry.condition.toList.flatMap NameRole.condition.violations ++
    (if model.hasSubject entry then []
    else [.invalidUserType site (toString entry)]) ++
    entry.condition.toList.flatMap fun condition =>
      if (model.condition? condition).isSome then []
      else [.undefinedCondition site condition]

/-- Violations in what a relation says about direct assignment. -/
def assignmentViolations (model : Model) (site : Site) (relation : Relation) :
    List Violation :=
  let nodes := relation.rule.directCount
  let declared := relation.userTypes.length
  (if 1 < nodes || (nodes = 0 && 0 < declared) then
    [Violation.directMismatch site nodes declared] else []) ++
    relation.userTypes.flatMap (model.userTypeViolations site)

/-- Violations in a rule that goes through a tupleset. -/
def tuplesetViolations (model : Model) (type : TypeDefinition) (site : Site)
    (tupleset relation : String) : List Violation :=
  match type.relation? tupleset with
  | none => [.undefinedRelation site tupleset]
  | some found =>
      let targets := found.userTypes.filter UserType.isPlain
      if targets.isEmpty ||
          targets.any fun target => model.hasRelation target.typeName relation then []
      else [.undefinedTarget site tupleset relation]

mutual

/-- Violations in a rule of a type. -/
def ruleViolations (model : Model) (type : TypeDefinition) (site : Site) :
    Rule → List Violation
  | .direct => []
  | .computed relation =>
      if (type.relation? relation).isSome then []
      else [.undefinedRelation site relation]
  | .through tupleset relation =>
      model.tuplesetViolations type site tupleset relation
  | .union children =>
      (if children.length < 2 then
        [Violation.invalidUnion site children.length] else []) ++
        (if children.tail.any Rule.isDirect then
          [Violation.directNotFirst site] else []) ++
        model.childViolations type site children.length children

/-- Violations in the children of a union, given how many it has. -/
def childViolations (model : Model) (type : TypeDefinition) (site : Site)
    (count : Nat) : List Rule → List Violation
  | [] => []
  | child :: children =>
      (if child.isUnion then [Violation.invalidUnion site count] else []) ++
        model.ruleViolations type site child ++
        model.childViolations type site count children

end

/-- Violations in some relations of a type, given the names before them. -/
def relationViolations (model : Model) (type : TypeDefinition)
    (earlier : List String) : List Relation → List Violation
  | [] => []
  | relation :: relations =>
      let site : Site := { type := type.name, relation := relation.name }
      NameRole.relation.violations relation.name ++
        (if earlier.contains relation.name then
          [Violation.duplicateRelation site] else []) ++
        model.assignmentViolations site relation ++
        model.ruleViolations type site relation.rule ++
        model.relationViolations type (relation.name :: earlier) relations

def cycleViolations (type : TypeDefinition) : List Violation :=
  match type.cycle? with
  | some (relation, path) => [.cyclicRelation { type := type.name, relation } path]
  | none => []

/-- Violations in the relations of a type. -/
def typeViolations (model : Model) (type : TypeDefinition) : List Violation :=
  model.relationViolations type [] type.relations ++ cycleViolations type

/-- All violations of a model. -/
def violations (model : Model) : List Violation :=
  if model.types.isEmpty then [.emptyModel]
  else
    model.schemaViolations ++
      typeNameViolations [] model.types ++
      conditionViolations [] model.conditions ++
      model.types.flatMap model.typeViolations

def isValid (model : Model) : Bool :=
  model.violations.isEmpty

end Model

end Rebac
