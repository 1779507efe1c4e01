import Rebac.Relation.Parser

/-!
# Errors in DSL text

Every error names the line on which the offending statement starts.
-/

namespace Rebac.Dsl

/-- Statements that are none of the known forms, or not quite. -/
inductive StatementFault where
  | unknown (statement : String)
  | schemaVersion (version : String)
  | noColon (definition : String)
  deriving Repr, DecidableEq

def StatementFault.message : StatementFault → String
  | .unknown statement => "unexpected statement '" ++ statement ++ "'"
  | .schemaVersion version => "invalid schema version '" ++ version ++ "'"
  | .noColon definition =>
      "expected 'define <relation>: <expression>', found 'define" ++ definition ++ "'"

/-- The statements that belong to a type. -/
inductive Member where
  | relations
  | define
  deriving Repr, DecidableEq

inductive Fault where
  | unterminatedBlock (start : Nat)
  | unexpectedStatement (cause : StatementFault)
  | outsideType (member : Member)
  | invalidTypeName (name : String)
  | invalidRelationName (name : String)
  | duplicateType (name : String)
  | duplicateRelation (name typeName : String)
  | duplicateCondition (name : String)
  | relation (error : Relation.Error)
  | condition (cause : ConditionFault)
  deriving Repr, DecidableEq

def Fault.message : Fault → String
  | .unterminatedBlock start =>
      "condition block starting at line " ++ toString start ++
        " is missing its closing '\x7d'"
  | .unexpectedStatement cause => cause.message
  | .outsideType .relations => "'relations' must follow a type declaration"
  | .outsideType .define => "'define' must appear inside a type's relations"
  | .invalidTypeName name => "invalid type name '" ++ name ++ "'"
  | .invalidRelationName name => "invalid relation name '" ++ name ++ "'"
  | .duplicateType name => "type '" ++ name ++ "' is defined more than once"
  | .duplicateRelation name typeName =>
      "relation '" ++ name ++ "' is defined more than once on type '" ++
        typeName ++ "'"
  | .duplicateCondition name =>
      "condition '" ++ name ++ "' is defined more than once"
  | .relation error => error.message
  | .condition cause => cause.message

structure Error where
  line : Nat
  fault : Fault
  deriving Repr, DecidableEq

/-- The full text of an error. -/
def Error.display (error : Error) : String :=
  "line " ++ toString error.line ++ ": " ++ error.fault.message

end Rebac.Dsl
