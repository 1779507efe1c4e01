import Rebac.Condition
import Rebac.Rule
import Rebac.UserType

/-!
# Authorization models

A model lists type definitions and conditions in declaration order.  Nothing
prevents two of them from sharing a name; every look-up takes the first.
-/

namespace Rebac

structure Relation where
  name : String
  rule : Rule
  /-- Who may be assigned where the rule has a direct assignment. -/
  userTypes : List UserType
  deriving Repr, DecidableEq, Inhabited

structure TypeDefinition where
  name : String
  relations : List Relation
  deriving Repr, DecidableEq, Inhabited

structure Model where
  schemaVersion : String
  types : List TypeDefinition
  conditions : List Condition
  deriving Repr, DecidableEq

namespace TypeDefinition

def relation? (type : TypeDefinition) (name : String) : Option Relation :=
  type.relations.find? (·.name = name)

def relationNames (type : TypeDefinition) : List String :=
  type.relations.map (·.name)

/-- The direct user types of a relation; an unknown relation has none. -/
def userTypes (type : TypeDefinition) (relation : String) : List UserType :=
  match type.relation? relation with
  | some found => found.userTypes
  | none => []

end TypeDefinition

namespace Model

def defaultSchemaVersion : String := "1.1"

/-- A model without types and conditions. -/
def ofSchema (schemaVersion : String) : Model :=
  { schemaVersion, types := [], conditions := [] }

instance : Inhabited Model :=
  ⟨ofSchema defaultSchemaVersion⟩

def type? (model : Model) (name : String) : Option TypeDefinition :=
  model.types.find? (·.name = name)

def condition? (model : Model) (name : String) : Option Condition :=
  model.conditions.find? (·.name = name)

def hasType (model : Model) (name : String) : Bool :=
  (model.type? name).isSome

/-- Whether the first type of a name has a relation of a name. -/
def hasRelation (model : Model) (type relation : String) : Bool :=
  ((model.type? type).bind (·.relation? relation)).isSome

end Model

end Rebac
