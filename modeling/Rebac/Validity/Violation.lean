import Rebac.Condition

/-!
# Violations of model validity

A violation says what is wrong and where, so that a model can be judged
by the list of all its violations.
-/

namespace Rebac

/-- A relation of a type. -/
structure Site where
  type : String
  relation : String
  deriving Repr, DecidableEq

def Site.text (site : Site) : String :=
  site.type ++ "#" ++ site.relation

inductive NameRole where
  | type
  | relation
  | condition
  deriving Repr, DecidableEq

def NameRole.text : NameRole → String
  | .type => "type"
  | .relation => "relation"
  | .condition => "condition"

inductive Violation where
  | emptyModel
  | invalidSchemaVersion (version : String)
  | invalidName (role : NameRole) (name : String)
  | duplicateType (name : String)
  | duplicateRelation (site : Site)
  | duplicateCondition (name : String)
  | cyclicRelation (site : Site) (path : List String)
  | undefinedRelation (site : Site) (name : String)
  /-- No type that the tupleset points to defines the relation. -/
  | undefinedTarget (site : Site) (tupleset relation : String)
  | invalidUserType (site : Site) (entry : String)
  | undefinedCondition (site : Site) (name : String)
  | invalidUnion (site : Site) (children : Nat)
  | directNotFirst (site : Site)
  | directMismatch (site : Site) (nodes declared : Nat)
  | invalidCondition (name : String) (cause : ConditionFault)
  deriving Repr, DecidableEq

def Violation.message : Violation → String
  | .emptyModel => "model must have at least one type definition"
  | .invalidSchemaVersion version => "invalid schema version '" ++ version ++ "'"
  | .invalidName role name => "invalid " ++ role.text ++ " name '" ++ name ++ "'"
  | .duplicateType name => "type '" ++ name ++ "' is defined more than once"
  | .duplicateRelation site =>
      "relation '" ++ site.relation ++ "' is defined more than once on type '" ++
        site.type ++ "'"
  | .duplicateCondition name =>
      "condition '" ++ name ++ "' is defined more than once"
  | .cyclicRelation site path =>
      "cyclic relation definition in " ++ site.text ++ ": " ++
        " -> ".intercalate path
  | .undefinedRelation site name =>
      "undefined relation '" ++ name ++ "' referenced in " ++ site.text
  | .undefinedTarget site tupleset relation =>
      "undefined relation '" ++ tupleset ++ "->" ++ relation ++
        "' referenced in " ++ site.text
  | .invalidUserType site entry =>
      "invalid type constraint '" ++ entry ++ "' in " ++ site.text
  | .undefinedCondition site name =>
      "undefined condition '" ++ name ++ "' referenced in " ++ site.text
  | .invalidUnion site children =>
      "union in " ++ site.text ++ " has " ++ toString children ++
        " children, at least 2 are required"
  | .directNotFirst site =>
      "direct assignment in " ++ site.text ++ " must be the first union child"
  | .directMismatch site nodes declared =>
      site.text ++ " has " ++ toString nodes ++ " direct assignment nodes and " ++
        toString declared ++ " declared direct user types"
  | .invalidCondition name cause =>
      "invalid condition '" ++ name ++ "': " ++ cause.message

end Rebac
