import Rebac.Text.Blank

/-!
# Conditions

A condition is a named, parameterised Boolean expression that a directly
assigned user may carry.  Expressions are kept as text; only their shape is
checked.  This module holds the data and the causes for which a condition is
refused.
-/

namespace Rebac

inductive ParameterType where
  | timestamp
  | duration
  | int
  | bool
  | string
  deriving Repr, DecidableEq, Inhabited

namespace ParameterType

def all : List ParameterType :=
  [.timestamp, .duration, .int, .bool, .string]

/-- The spelling in a condition block. -/
def name : ParameterType → String
  | .timestamp => "timestamp"
  | .duration => "duration"
  | .int => "int"
  | .bool => "bool"
  | .string => "string"

/-- The spelling in a JSON document. -/
def documentName : ParameterType → String
  | .timestamp => "TYPE_NAME_TIMESTAMP"
  | .duration => "TYPE_NAME_DURATION"
  | .int => "TYPE_NAME_INT"
  | .bool => "TYPE_NAME_BOOL"
  | .string => "TYPE_NAME_STRING"

/-- Read either spelling, in any case and with blanks around it. -/
def ofText? (text : List Char) : Option ParameterType :=
  let lowered := (Text.trim text).map Char.toLower
  let bare := (List.isPrefixOf? "type_name_".toList lowered).getD lowered
  all.find? fun type => type.name.toList = bare

theorem mem_all (type : ParameterType) : type ∈ all := by
  cases type <;> decide

theorem ofText?_name (type : ParameterType) :
    ofText? type.name.toList = some type := by
  cases type <;> decide

theorem ofText?_documentName (type : ParameterType) :
    ofText? type.documentName.toList = some type := by
  cases type <;> decide

end ParameterType

structure Parameter where
  name : String
  type : ParameterType
  deriving Repr, DecidableEq, Inhabited

structure Condition where
  name : String
  parameters : List Parameter
  expression : String
  deriving Repr, DecidableEq, Inhabited

/-- The type of the first parameter with a name. -/
def Condition.parameterType? (condition : Condition) (name : String) :
    Option ParameterType :=
  (condition.parameters.find? (·.name = name)).map (·.type)

/-- The three kinds of brackets that an expression may nest. -/
inductive Bracket where
  | round
  | square
  | curly
  deriving Repr, DecidableEq, Inhabited

namespace Bracket

def opening : Bracket → Char
  | .round => '('
  | .square => '['
  | .curly => '\x7b'

def closing : Bracket → Char
  | .round => ')'
  | .square => ']'
  | .curly => '\x7d'

end Bracket

/-- Ways in which the text of an expression is no expression at all. -/
inductive Malformation where
  | unterminatedLiteral
  | unexpectedCharacter (character : Char)
  | unbalanced (bracket : Bracket)
  | unclosed (bracket : Bracket)
  | padded
  deriving Repr, DecidableEq

def Malformation.message : Malformation → String
  | .unterminatedLiteral => "unterminated string literal"
  | .unexpectedCharacter character =>
      "unexpected character '" ++ character.toString ++ "'"
  | .unbalanced bracket => "unbalanced '" ++ bracket.closing.toString ++ "'"
  | .unclosed bracket => "unclosed '" ++ bracket.opening.toString ++ "'"
  | .padded => "expression has surrounding whitespace or '\\r' line breaks"

inductive ExpressionFault where
  | empty
  | undeclared (name : String)
  | invalidOperator (run : String)
  | malformed (cause : Malformation)
  deriving Repr, DecidableEq

/-- What the text of a condition block lacks. -/
inductive BlockFault where
  | noHead
  | noClosingBrace
  deriving Repr, DecidableEq

def BlockFault.message : BlockFault → String
  | .noHead =>
      "expected 'condition <name>(<params>) \x7b <expression> \x7d'"
  | .noClosingBrace => "missing closing '\x7d'"

inductive ParameterFault where
  | noColon
  | notIdentifier
  | repeated
  /-- The two previous faults in a condition that was built rather than read. -/
  | notUnique
  deriving Repr, DecidableEq

def ParameterFault.message : ParameterFault → String
  | .noColon => "expected 'name: type'"
  | .notIdentifier => "parameter name is not a valid identifier"
  | .repeated => "parameter is declared more than once"
  | .notUnique => "parameter names must be unique identifiers"

/-- Causes for which a condition is refused. -/
inductive ConditionFault where
  | malformedBlock (cause : BlockFault) (statement : String)
  | invalidName (name : String)
  | invalidParameter (condition entry : String) (cause : ParameterFault)
  | invalidParameterType (condition parameter typeName : String)
  | expression (condition : String) (cause : ExpressionFault)
  deriving Repr, DecidableEq

def ConditionFault.message : ConditionFault → String
  | .malformedBlock cause statement =>
      "malformed condition block: " ++ cause.message ++ " in '" ++ statement ++ "'"
  | .invalidName name => "invalid condition name '" ++ name ++ "'"
  | .invalidParameter condition entry cause =>
      "invalid parameter '" ++ entry ++ "' in condition '" ++ condition ++ "': " ++
        cause.message
  | .invalidParameterType condition parameter typeName =>
      "invalid type '" ++ typeName ++ "' for parameter '" ++ parameter ++
        "' in condition '" ++ condition ++ "'"
  | .expression condition .empty =>
      "condition '" ++ condition ++ "' has an empty expression"
  | .expression condition (.undeclared name) =>
      "undeclared variable '" ++ name ++ "' in condition '" ++ condition ++ "'"
  | .expression condition (.invalidOperator run) =>
      "invalid operator '" ++ run ++ "' in condition '" ++ condition ++ "'"
  | .expression condition (.malformed cause) =>
      "malformed expression in condition '" ++ condition ++ "': " ++ cause.message

end Rebac
