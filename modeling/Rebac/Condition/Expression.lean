import Rebac.Condition.Token

/-!
# Shape of condition expressions

Expressions are not parsed.  Four passes over the tokens find the first reason
to refuse one: the text is blank or does not split into tokens, a name is used
that nothing declares, an operator run is not supported, or the brackets do
not nest.
-/

namespace Rebac.Expression

/-- Words that never name a variable. -/
def constantWords : List (List Char) :=
  ["true".toList, "false".toList, "null".toList, "in".toList]

/-- Functions that may be called without a declaration. -/
def builtins : List (List Char) :=
  ["size".toList, "int".toList, "uint".toList, "double".toList,
    "string".toList, "bool".toList, "bytes".toList, "timestamp".toList,
    "duration".toList, "dyn".toList, "type".toList, "has".toList,
    "matches".toList]

/-- Comprehensions, whose first argument binds a name. -/
def binders : List (List Char) :=
  ["all".toList, "exists".toList, "exists_one".toList, "map".toList,
    "filter".toList]

def operators : List (List Char) :=
  ["+".toList, "-".toList, "*".toList, "/".toList, "%".toList, "==".toList,
    "!=".toList, "<".toList, "<=".toList, ">".toList, ">=".toList,
    "&&".toList, "||".toList, "!".toList]

/-- The name bound by a comprehension that starts at the first token. -/
def boundName? : List Token → Option (List Char)
  | .dot :: .name binder :: .opening .round :: .name bound :: .comma :: _ =>
      if binders.contains binder then some bound else none
  | _ => none

/-- The names that comprehensions bind anywhere among the tokens. -/
def boundNames : List Token → List (List Char)
  | [] => []
  | token :: rest => (boundName? (token :: rest)).toList ++ boundNames rest

def opensCall : List Token → Bool
  | .opening .round :: _ => true
  | _ => false

/-- The leftmost name that is neither a member after a dot, nor a constant, nor
a called builtin, nor declared. -/
def undeclared? (declared : List (List Char)) :
    Bool → List Token → Option (List Char)
  | _, [] => none
  | afterDot, .name text :: rest =>
      if afterDot || constantWords.contains text ||
          (opensCall rest && builtins.contains text) ||
          declared.contains text then
        undeclared? declared false rest
      else some text
  | _, .dot :: rest => undeclared? declared true rest
  | _, _ :: rest => undeclared? declared false rest

def isUnaryChain (run : List Char) : Bool :=
  !run.isEmpty && run.all fun character => character == '!' || character == '-'

/-- A listed operator, a chain of unary operators, or the first followed by
the second. -/
def isOperatorRun (run : List Char) : Bool :=
  operators.contains run || isUnaryChain run ||
    (List.range' 1 (run.length - 1)).any fun width =>
      operators.contains (run.take width) && isUnaryChain (run.drop width)

def unsupportedRun? : Token → Option (List Char)
  | .operator run => if isOperatorRun run then none else some run
  | _ => none

/-- The first bracket that does not nest, given the brackets still open. -/
def misnested? : List Bracket → List Token → Option Malformation
  | [], [] => none
  | bracket :: _, [] => some (.unclosed bracket)
  | stack, .opening bracket :: rest => misnested? (bracket :: stack) rest
  | [], .closing bracket :: _ => some (.unbalanced bracket)
  | top :: stack, .closing bracket :: rest =>
      if top = bracket then misnested? stack rest
      else some (.unbalanced bracket)
  | stack, _ :: rest => misnested? stack rest

/-- The first fault among the tokens of an expression. -/
def checkTokens (parameters : List String) (tokens : List Token) :
    Except ExpressionFault Unit :=
  let declared := parameters.map String.toList ++ boundNames tokens
  match undeclared? declared false tokens with
  | some text => .error (.undeclared (String.ofList text))
  | none =>
      match tokens.findSome? unsupportedRun? with
      | some run => .error (.invalidOperator (String.ofList run))
      | none =>
          match misnested? [] tokens with
          | some cause => .error (.malformed cause)
          | none => .ok ()

/-- Check an expression that may use the given parameters. -/
def check (parameters : List String) (text : List Char) :
    Except ExpressionFault Unit :=
  if (Text.trim text).isEmpty then .error .empty
  else
    match tokenize text with
    | .error cause => .error (.malformed cause)
    | .ok tokens => checkTokens parameters tokens

end Rebac.Expression
