import Rebac.Condition.Expression
import Rebac.Text.Lines

/-!
# Condition blocks

A condition is written as
`condition name(parameter: type, …) { expression }`.
Reading one finds the pieces by the first opening bracket after the keyword,
the first closing parenthesis and the last brace, and trims each piece.
Writing lays the expression out on lines of its own.
-/

namespace Rebac.Condition

/-- The name, the parameters and all that follows the opening brace of a
block. -/
def blockHead? (statement : List Char) :
    Option (List Char × List Char × List Char) := do
  let afterKeyword ← List.isPrefixOf? "condition".toList statement
  let named := Text.skipGap afterKeyword
  let outsideName := fun character => character ≠ '(' && character ≠ '\x7b'
  let name := named.takeWhile outsideName
  match named.dropWhile outsideName with
  | '(' :: rest =>
      let (parameters, rest) ← Text.splitOnce ')' rest
      match Text.skipGap rest with
      | '\x7b' :: body => some (name, parameters, body)
      | _ => none
  | _ => none

/-- The expression of a block, from all that follows the opening brace. -/
def blockExpression? (body : List Char) : Option (List Char) :=
  let body := Text.trimEnd body
  if body.getLast? = some '\x7d' then some (Text.trim body.dropLast) else none

/-- Read one parameter entry, given the names declared before it. -/
def readParameter (condition : String) (declared : List String)
    (entry : List Char) : Except ConditionFault Parameter :=
  let invalid := fun cause =>
    Except.error (.invalidParameter condition (String.ofList entry) cause)
  match Text.splitOnce ':' entry with
  | none => invalid .noColon
  | some (before, after) =>
      let name := String.ofList (Text.trim before)
      let typeName := Text.trim after
      if isIdentifier name then
        match ParameterType.ofText? typeName with
        | none =>
            .error (.invalidParameterType condition name (String.ofList typeName))
        | some type =>
            if declared.contains name then invalid .repeated
            else .ok { name, type }
      else invalid .notIdentifier

/-- Read the remaining parameter entries, given the names declared before
them. -/
def readEntries (condition : String) :
    List String → List (List Char) → Except ConditionFault (List Parameter)
  | _, [] => .ok []
  | declared, entry :: entries => do
      let parameter ← readParameter condition declared (Text.trim entry)
      let parameters ← readEntries condition (parameter.name :: declared) entries
      pure (parameter :: parameters)

/-- Read what stands between the parentheses of a block. -/
def readParameters (condition : String) (text : List Char) :
    Except ConditionFault (List Parameter) :=
  let text := Text.trim text
  if text.isEmpty then .ok []
  else readEntries condition [] (text.splitOn ',')

/-- Read a condition block. -/
def ofText (statement : List Char) : Except ConditionFault Condition :=
  let statement := Text.trim statement
  let malformed := fun cause =>
    Except.error (.malformedBlock cause (String.ofList statement))
  match blockHead? statement with
  | none => malformed .noHead
  | some (name, parameters, body) =>
      match blockExpression? body with
      | none => malformed .noClosingBrace
      | some expression => do
          let name := String.ofList (Text.trim name)
          if isIdentifier name then
            let parameters ← readParameters name parameters
            match Expression.check (parameters.map (·.name)) expression with
            | .error cause => .error (.expression name cause)
            | .ok () =>
                pure { name, parameters, expression := String.ofList expression }
          else .error (.invalidName name)

/-- The first parameter whose name is no identifier or occurred before. -/
def repeatedParameter? : List String → List Parameter → Option String
  | _, [] => none
  | declared, parameter :: parameters =>
      if isIdentifier parameter.name && !declared.contains parameter.name then
        repeatedParameter? (parameter.name :: declared) parameters
      else some parameter.name

/-- Whether the text of an expression differs from what a block yields. -/
def isPadded (expression : List Char) : Bool :=
  Text.trim expression != expression || expression.contains '\r'

/-- Check a condition that was not read from a block.  Its expression must be
one that a block can yield. -/
def check (condition : Condition) : Except ConditionFault Unit :=
  if isIdentifier condition.name then
    match repeatedParameter? [] condition.parameters with
    | some name => .error (.invalidParameter condition.name name .notUnique)
    | none =>
        let expression := condition.expression.toList
        if isPadded expression && !(Text.trim expression).isEmpty then
          .error (.expression condition.name (.malformed .padded))
        else
          match Expression.check (condition.parameters.map (·.name)) expression with
          | .error cause => .error (.expression condition.name cause)
          | .ok () => .ok ()
  else .error (.invalidName condition.name)

def parameterText (parameter : Parameter) : List Char :=
  parameter.name.toList ++ ": ".toList ++ parameter.type.name.toList

/-- The block that declares a condition. -/
def toText (condition : Condition) : List Char :=
  "condition ".toList ++ condition.name.toList ++ "(".toList ++
    ", ".toList.intercalate (condition.parameters.map parameterText) ++
    ") \x7b\n  ".toList ++ condition.expression.toList ++ "\n\x7d\n".toList

end Rebac.Condition
