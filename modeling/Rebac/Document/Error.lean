import Rebac.Json.Error

/-!
# Errors in JSON documents

Whatever a document gets wrong is reported together with the part of the model
in which it stands.
-/

namespace Rebac.Document

/-- The part of a document that is being read. -/
inductive Place where
  | model
  | conditions
  | someType
  | type (name : String)
  | relation (typeName name : String)
  | condition (name : String)
  deriving Repr, DecidableEq

def Place.text : Place → String
  | .model => "model"
  | .conditions => "conditions"
  | .someType => "type definition"
  | .type name => "type '" ++ name ++ "'"
  | .relation typeName name => typeName ++ "#" ++ name
  | .condition name => "condition '" ++ name ++ "'"

/-- Members that do not have the shape they should have. -/
inductive ShapeFault where
  | notObject
  | notString (field : String)
  | typesNotArray
  | userTypesNotArray
  | undefinedRelation
  | relationAndWildcard (typeName : String)
  | emptyRule
  | severalRules
  | unknownRule (shape : String)
  | childNotArray
  | noChild
  | unsupportedParameter (name typeName : String)
  deriving Repr, DecidableEq

def ShapeFault.message : ShapeFault → String
  | .notObject => "expected a JSON object"
  | .notString field => "field '" ++ field ++ "' must be a string"
  | .typesNotArray => "field 'type_definitions' must be an array"
  | .userTypesNotArray => "directly_related_user_types must be an array"
  | .undefinedRelation => "metadata for undefined relation"
  | .relationAndWildcard typeName =>
      "user type '" ++ typeName ++ "' sets both relation and wildcard"
  | .emptyRule => "empty relation rewrite"
  | .severalRules => "relation rewrite must have exactly one key"
  | .unknownRule shape => "unknown relation rewrite '" ++ shape ++ "'"
  | .childNotArray => "union must have a 'child' array"
  | .noChild => "union must have at least one child"
  | .unsupportedParameter name typeName =>
      "parameter '" ++ name ++ "' has unsupported type '" ++ typeName ++ "'"

inductive Fault where
  | missing (field : String)
  | invalid (cause : ShapeFault)
  /-- A set operator that rules do not support. -/
  | unsupported (shape : String)
  deriving Repr, DecidableEq

def Fault.message : Fault → String
  | .missing field => "missing field '" ++ field ++ "'"
  | .invalid cause => cause.message
  | .unsupported shape => "unsupported rewrite '" ++ shape ++ "'"

/-- Causes for which a text is no document of a model. -/
inductive Error where
  | notJson (error : Json.Error)
  | fault (place : Place) (cause : Fault)
  deriving Repr, DecidableEq

def Error.message : Error → String
  | .notJson error => "invalid JSON: " ++ error.message
  | .fault place cause => place.text ++ ": " ++ cause.message

end Rebac.Document
