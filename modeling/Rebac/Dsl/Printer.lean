import Rebac.Condition.Block
import Rebac.Model

/-!
# Writing DSL text

The written form of a model has the schema version first, then a block for
every condition, then every type with its relations.
-/

namespace Rebac

def UserType.listText (entries : List UserType) : List Char :=
  '[' :: ", ".toList.intercalate (entries.map UserType.toText) ++ [']']

namespace Rule

mutual

/-- The definition of a relation with a rule and direct user types. -/
def toText (entries : List UserType) : Rule → List Char
  | .direct => UserType.listText entries
  | .computed relation => relation.toList
  | .through tupleset relation =>
      relation.toList ++ " from ".toList ++ tupleset.toList
  | .union children => " or ".toList.intercalate (toTexts entries children)

/-- List counterpart of `Rule.toText`. -/
def toTexts (entries : List UserType) : List Rule → List (List Char)
  | [] => []
  | rule :: rules => rule.toText entries :: toTexts entries rules

end

end Rule

def Relation.toText (relation : Relation) : List Char :=
  "    define ".toList ++ relation.name.toList ++ ": ".toList ++
    relation.rule.toText relation.userTypes ++ ['\n']

def TypeDefinition.toText (type : TypeDefinition) : List Char :=
  "type ".toList ++ type.name.toList ++ '\n' ::
    if type.relations.isEmpty then []
    else "  relations\n".toList ++ type.relations.flatMap Relation.toText

/-- The DSL text of a model. -/
def Model.toDsl (model : Model) : List Char :=
  "model\n  schema ".toList ++ model.schemaVersion.toList ++ ['\n'] ++
    model.conditions.flatMap (fun condition => '\n' :: condition.toText) ++
    model.types.flatMap (fun type => '\n' :: type.toText)

end Rebac
