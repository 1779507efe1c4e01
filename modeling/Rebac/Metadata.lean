import Rebac.Json.Writer
import Rebac.Model
import Rebac.NameMap

/-!
# Relationship metadata

Forms that write tuples need to know, for every relation, which users they may
offer and which condition a tuple carries.  Metadata lists this by name, with
direct user types in their written form; a relation without any offers a
fallback user type.
-/

namespace Rebac

structure TypeMetadata where
  typeName : String
  relations : List String
  /-- The user types offered for a relation. -/
  userTypes : NameMap (List String)
  conditions : NameMap Condition
  /-- Whether any relation can be assigned directly. -/
  allowsDirectInput : Bool
  deriving Repr, DecidableEq

structure Metadata where
  types : NameMap TypeMetadata
  conditions : NameMap Condition
  deriving Repr, DecidableEq

/-- Keep the first of every group of equal texts. -/
def distinctTexts : List String → List String → List String
  | _, [] => []
  | earlier, text :: texts =>
      if earlier.contains text then distinctTexts earlier texts
      else text :: distinctTexts (text :: earlier) texts

namespace Relation

/-- The user types that a form offers for a relation. -/
def offeredUserTypes (fallback : String) (relation : Relation) : List String :=
  match distinctTexts [] (relation.userTypes.map toString) with
  | [] => [fallback]
  | texts => texts

/-- The first condition among the direct user types that the model defines. -/
def definedCondition? (model : Model) (relation : Relation) : Option Condition :=
  (relation.userTypes.filterMap (·.condition)).findSome? model.condition?

end Relation

namespace TypeMetadata

def ofType (fallback : String) (model : Model) (type : TypeDefinition) :
    TypeMetadata :=
  { typeName := type.name
    relations := type.relationNames
    userTypes := NameMap.ofEntries (type.relations.map fun relation =>
      (relation.name, relation.offeredUserTypes fallback))
    conditions := NameMap.ofEntries (type.relations.filterMap fun relation =>
      (relation.definedCondition? model).map fun condition =>
        (relation.name, condition))
    allowsDirectInput := type.relations.any (·.rule.hasDirect) }

end TypeMetadata

namespace Metadata

/-- The metadata of a model, given the user type that stands in where a
relation has none. -/
def ofModel (fallback : String) (model : Model) : Metadata :=
  { types := NameMap.ofEntries (model.types.map fun type =>
      (type.name, TypeMetadata.ofType fallback model type))
    conditions := NameMap.ofEntries (model.conditions.map fun condition =>
      (condition.name, condition)) }

/-- The type name at the start of a written user type. -/
def baseType (text : String) : String :=
  String.ofList (text.toList.takeWhile fun character =>
    character ≠ '#' && character ≠ ':' && !Text.isBlank character)

def userTypesFor? (metadata : Metadata) (type relation : String) :
    Option (List String) := do
  let found ← NameMap.find? type metadata.types
  NameMap.find? relation found.userTypes

/-- The relations of a type that offer a user type, in declaration order. -/
def relationsAccepting (metadata : Metadata) (type userType : String) :
    List String :=
  match NameMap.find? type metadata.types with
  | none => []
  | some found =>
      found.relations.filter fun relation =>
        match NameMap.find? relation found.userTypes with
        | none => false
        | some texts => texts.any fun text => baseType text = userType

def conditionFor? (metadata : Metadata) (type relation : String) :
    Option Condition := do
  let found ← NameMap.find? type metadata.types
  NameMap.find? relation found.conditions

end Metadata

/-- The description of a condition that metadata contains. -/
def Condition.metadataJson (condition : Condition) : Json :=
  .object [("name", .string condition.name),
    ("parameters", .array (condition.parameters.map fun parameter =>
      .object [("name", .string parameter.name),
        ("param_type", .string parameter.type.name)])),
    ("expression", .string condition.expression)]

def TypeMetadata.toJson (type : TypeMetadata) : Json :=
  .object [("type_name", .string type.typeName),
    ("relations", .array (type.relations.map .string)),
    ("user_types", .object (type.userTypes.map fun (name, texts) =>
      (name, .array (texts.map .string)))),
    ("conditions", .object (type.conditions.map fun (name, condition) =>
      (name, condition.metadataJson))),
    ("allow_direct_input", .bool type.allowsDirectInput)]

def Metadata.toJson (metadata : Metadata) : Json :=
  .object [("types", .object (metadata.types.map fun (name, type) =>
      (name, type.toJson))),
    ("conditions", .object (metadata.conditions.map fun (name, condition) =>
      (name, condition.metadataJson)))]

end Rebac
