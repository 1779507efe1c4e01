import Rebac.Json.Writer
import Rebac.Model

/-!
# Writing JSON documents of models

The members of every object are written in a fixed order, and names in the
order of the model.  Where a model repeats a name, the document keeps its first
place and its last meaning.
-/

namespace Rebac

/-- The document that refers to a relation. -/
def Document.reference (relation : String) : Json :=
  .object [("relation", .string relation)]

namespace Rule

mutual

def toJson : Rule → Json
  | .direct => .object [("this", .object [])]
  | .computed relation =>
      .object [("computedUserset", Document.reference relation)]
  | .through tupleset relation =>
      .object [("tupleToUserset",
        .object [("tupleset", Document.reference tupleset),
          ("computedUserset", Document.reference relation)])]
  | .union children =>
      .object [("union", .object [("child", .array (toJsonList children))])]

/-- List counterpart of `Rule.toJson`. -/
def toJsonList : List Rule → List Json
  | [] => []
  | rule :: rules => rule.toJson :: toJsonList rules

end

end Rule

def UserType.toJson (entry : UserType) : Json :=
  .object
    (("type", .string entry.typeName) ::
      (entry.relation.map fun relation => ("relation", Json.string relation)).toList ++
      (if entry.wildcard then [("wildcard", .object [])] else []) ++
      (entry.condition.map fun name => ("condition", Json.string name)).toList)

def Relation.metadataJson (relation : Relation) : Json :=
  .object [("directly_related_user_types",
    .array (relation.userTypes.map UserType.toJson))]

def TypeDefinition.toJson (type : TypeDefinition) : Json :=
  let rules := type.relations.map fun relation =>
    (relation.name, relation.rule.toJson)
  let metadata := type.relations.map fun relation =>
    (relation.name, relation.metadataJson)
  .object
    ([("type", .string type.name), ("relations", .ofMembers rules)] ++
      if type.relations.isEmpty then []
      else [("metadata", .object [("relations", .ofMembers metadata)])])

def Parameter.toJson (parameter : Parameter) : Json :=
  .object [("type_name", .string parameter.type.documentName)]

def Condition.toJson (condition : Condition) : Json :=
  let parameters := condition.parameters.map fun parameter =>
    (parameter.name, parameter.toJson)
  .object [("name", .string condition.name),
    ("expression", .string condition.expression),
    ("parameters", .ofMembers parameters)]

/-- The document of a model. -/
def Model.toJson (model : Model) : Json :=
  let conditions := model.conditions.map fun condition =>
    (condition.name, condition.toJson)
  .object
    ([("schema_version", .string model.schemaVersion),
      ("type_definitions", .array (model.types.map TypeDefinition.toJson))] ++
      if model.conditions.isEmpty then []
      else [("conditions", .ofMembers conditions)])

/-- The document of a model as pretty JSON text. -/
def Model.toJsonText (model : Model) : List Char :=
  model.toJson.toPretty

end Rebac
