import Rebac.Document.Error
import Rebac.Json.Reader
import Rebac.Model

/-!
# Reading JSON documents of models

A document lists type definitions.  Each spells the rules of its relations
as an object and, under `metadata`, the direct user types of the same
relations.  Unknown members are ignored, and so is most of what is null.
Unions are brought into canonical form while they are read.
-/

namespace Rebac

namespace Json

theorem sizeOf_find? {key : String} {value : Json}
    {members : List (String × Json)} (found : find? key members = some value) :
    sizeOf value < sizeOf members := by
  induction members with
  | nil => simp [find?] at found
  | cons member members induction =>
      obtain ⟨other, first⟩ := member
      simp only [find?] at found
      split at found
      · obtain rfl := by simpa using found
        simp only [List.cons.sizeOf_spec, Prod.mk.sizeOf_spec]
        omega
      · have smaller := induction found
        simp only [List.cons.sizeOf_spec]
        omega

theorem sizeOf_member? {key : String} {value member : Json}
    (found : value.member? key = some member) : sizeOf member < sizeOf value := by
  unfold member? at found
  split at found
  · have smaller := sizeOf_find? found
    simp only [Json.object.sizeOf_spec]
    omega
  · simp at found

end Json

namespace Document

def invalid {α : Type} (place : Place) (cause : ShapeFault) : Except Error α :=
  .error (.fault place (.invalid cause))

def missing {α : Type} (place : Place) (field : String) : Except Error α :=
  .error (.fault place (.missing field))

/-- The members of a value that has to be an object. -/
def readObject (place : Place) : Json → Except Error (List (String × Json))
  | .object members => .ok members
  | _ => invalid place .notObject

/-- A member that has to be a string. -/
def readString (place : Place) (value : Json) (field : String) :
    Except Error String :=
  match value.member? field with
  | some (.string text) => .ok text
  | some _ => invalid place (.notString field)
  | none => missing place field

/-- A member that may be a string; null and the empty string stand for none. -/
def readOptionalString (place : Place) (value : Json) (field : String) :
    Except Error (Option String) :=
  match value.member? field with
  | none => .ok none
  | some .null => .ok none
  | some (.string text) => .ok (if text.toList.isEmpty then none else some text)
  | some _ => invalid place (.notString field)

/-- The members of an object that may be absent or null. -/
def readOptionalObject (place : Place) : Option Json →
    Except Error (List (String × Json))
  | none => .ok []
  | some value => readObject place value

/-- The relation that a member refers to. -/
def readReference (place : Place) (value : Json) (field : String) :
    Except Error String :=
  match value.member? field with
  | none => missing place field
  | some inner => readString place inner "relation"

mutual

/-- Read a rule. -/
def readRule (place : Place) (value : Json) : Except Error Rule :=
  match value with
  | .object [] => invalid place .emptyRule
  | .object [(shape, inner)] =>
      if shape = "this" then .ok .direct
      else if shape = "computedUserset" then
        (readString place inner "relation").map .computed
      else if shape = "tupleToUserset" then
        match readReference place inner "tupleset" with
        | .error error => .error error
        | .ok tupleset =>
            (readReference place inner "computedUserset").map (.through tupleset)
      else if shape = "union" then
        match _found : inner.member? "child" with
        | some (.array []) => invalid place .noChild
        | some (.array (child :: children)) =>
            match readRule place child with
            | .error error => .error error
            | .ok first =>
                (readRules place children).map fun others =>
                  Rule.unionOf (first :: others)
        | _ => invalid place .childNotArray
      else if shape = "intersection" || shape = "difference" then
        .error (.fault place (.unsupported shape))
      else invalid place (.unknownRule shape)
  | .object _ => invalid place .severalRules
  | _ => invalid place .notObject
termination_by sizeOf value
decreasing_by
  all_goals
    have smaller := Json.sizeOf_member? _found
    simp only [Json.array.sizeOf_spec, List.cons.sizeOf_spec,
      Json.object.sizeOf_spec, Prod.mk.sizeOf_spec, List.nil.sizeOf_spec] at *
    omega

/-- List counterpart of `Document.readRule`. -/
def readRules (place : Place) (values : List Json) :
    Except Error (List Rule) :=
  match values with
  | [] => .ok []
  | value :: values =>
      match readRule place value with
      | .error error => .error error
      | .ok rule => (readRules place values).map (rule :: ·)
termination_by sizeOf values

end

/-- Read a direct user type. -/
def readUserType (place : Place) (value : Json) : Except Error UserType := do
  let _ ← readObject place value
  let typeName ← readString place value "type"
  let relation ← readOptionalString place value "relation"
  let wildcard := (value.filledMember? "wildcard").isSome
  let condition ← readOptionalString place value "condition"
  if relation.isSome && wildcard then invalid place (.relationAndWildcard typeName)
  else pure { typeName, relation, wildcard, condition }

def readUserTypes (place : Place) : List Json → Except Error (List UserType)
  | [] => .ok []
  | value :: values => do
      let entry ← readUserType place value
      let entries ← readUserTypes place values
      pure (entry :: entries)

/-- Read the rules of a type. -/
def readRelations (typeName : String) : List (String × Json) →
    Except Error (List Relation)
  | [] => .ok []
  | (name, value) :: members => do
      let rule ← readRule (.relation typeName name) value
      let relations ← readRelations typeName members
      pure ({ name, rule, userTypes := [] } :: relations)

/-- Give direct user types to the first relation of a name. -/
def assignUserTypes (name : String) (entries : List UserType) :
    List Relation → List Relation
  | [] => []
  | relation :: relations =>
      if relation.name = name then { relation with userTypes := entries } :: relations
      else relation :: assignUserTypes name entries relations

/-- Read the direct user types that metadata gives to the relations of a
type. -/
def readMetadata (typeName : String) (relations : List Relation) :
    List (String × Json) → Except Error (List Relation)
  | [] => .ok relations
  | (name, value) :: members =>
      let place := Place.relation typeName name
      if relations.any (·.name = name) then
        match value.filledMember? "directly_related_user_types" with
        | none => readMetadata typeName relations members
        | some (.array values) =>
            match readUserTypes place values with
            | .error error => .error error
            | .ok entries =>
                readMetadata typeName (assignUserTypes name entries relations) members
        | some _ => invalid place .userTypesNotArray
      else invalid place .undefinedRelation

/-- Read a type definition. -/
def readType (value : Json) : Except Error TypeDefinition := do
  let _ ← readObject .someType value
  let name ← readString .someType value "type"
  let place := Place.type name
  let rules ← readOptionalObject place (value.filledMember? "relations")
  let relations ← readRelations name rules
  let metadata ← readOptionalObject place
    ((value.member? "metadata").bind (·.filledMember? "relations"))
  let relations ← readMetadata name relations metadata
  pure { name, relations }

def readTypes : List Json → Except Error (List TypeDefinition)
  | [] => .ok []
  | value :: values => do
      let type ← readType value
      let types ← readTypes values
      pure (type :: types)

/-- Replace every carriage return that a line feed follows by nothing. -/
def unifyLineBreaks : List Char → List Char
  | [] => []
  | '\r' :: '\n' :: rest => '\n' :: unifyLineBreaks rest
  | character :: rest => character :: unifyLineBreaks rest

/-- Read the parameters of a condition. -/
def readParameters (place : Place) : List (String × Json) →
    Except Error (List Parameter)
  | [] => .ok []
  | (name, value) :: members => do
      let typeName ← readString place value "type_name"
      match ParameterType.ofText? typeName.toList with
      | none =>
          invalid place
            (.unsupportedParameter name (String.ofList (Text.trim typeName.toList)))
      | some type =>
          let parameters ← readParameters place members
          pure ({ name, type } :: parameters)

/-- Read the condition that stands under a name. -/
def readCondition (name : String) (value : Json) : Except Error Condition := do
  let place := Place.condition name
  let _ ← readObject place value
  let expression ← readString place value "expression"
  let members ← readOptionalObject place (value.filledMember? "parameters")
  let parameters ← readParameters place members
  let expression := unifyLineBreaks (Text.trim expression.toList)
  pure { name, parameters, expression := String.ofList expression }

def readConditions : List (String × Json) → Except Error (List Condition)
  | [] => .ok []
  | (name, value) :: members => do
      let condition ← readCondition name value
      let conditions ← readConditions members
      pure (condition :: conditions)

/-- Read a model from a JSON value. -/
def ofJson (value : Json) : Except Error Model := do
  let _ ← readObject .model value
  let schemaVersion ← readString .model value "schema_version"
  match value.member? "type_definitions" with
  | none => missing .model "type_definitions"
  | some (.array values) =>
      let types ← readTypes values
      let members ← readOptionalObject .conditions (value.filledMember? "conditions")
      let conditions ← readConditions members
      pure { schemaVersion, types, conditions }
  | some _ => invalid .model .typesNotArray

/-- The value inside the envelope that a document may come in. -/
def withoutEnvelope (value : Json) : Json :=
  (value.member? "authorization_model").getD value

/-- Read a model from JSON text. -/
def read (text : List Char) : Except Error Model :=
  match Json.read text with
  | .error error => .error (.notJson error)
  | .ok value => ofJson (withoutEnvelope value)

end Document

end Rebac
