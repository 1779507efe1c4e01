import Rebac.Condition
import Rebac.Name

/-!
# Tokens of condition expressions

An expression is cut into a flat list of tokens.  Runs of digits, of
identifier characters and of operator characters are as long as possible, a
string literal ends at the next unescaped quote of its own kind, and blanks
only separate.  What a literal or a number spells is of no interest here, so
their tokens carry nothing.
-/

namespace Rebac.Expression

inductive Token where
  | name (text : List Char)
  | number
  | literal
  | operator (run : List Char)
  | dot
  | comma
  | opening (bracket : Bracket)
  | closing (bracket : Bracket)
  /-- A question mark or a colon. -/
  | choice (character : Char)
  deriving Repr, DecidableEq, Inhabited

def isQuote (character : Char) : Bool :=
  character == '"' || character == '\''

def isOperatorCharacter (character : Char) : Bool :=
  "+-*/%=!<>&|^~".toList.contains character

/-- The characters that may follow the first digit of a number. -/
def isNumberCharacter (character : Char) : Bool :=
  character.isAlphanum || character == '.'

/-- The tokens that one character makes on its own. -/
def mark? : Char → Option Token
  | '.' => some .dot
  | ',' => some .comma
  | '(' => some (.opening .round)
  | '[' => some (.opening .square)
  | '\x7b' => some (.opening .curly)
  | ')' => some (.closing .round)
  | ']' => some (.closing .square)
  | '\x7d' => some (.closing .curly)
  | '?' => some (.choice '?')
  | ':' => some (.choice ':')
  | _ => none

/-- The text after the end of a literal whose opening quote has been read. -/
def afterLiteral (quote : Char) : List Char → Option (List Char)
  | [] => none
  | character :: rest =>
      if character = quote then some rest
      else if character = '\\' then
        match rest with
        | [] => none
        | _ :: rest => afterLiteral quote rest
      else afterLiteral quote rest

theorem length_of_afterLiteral {quote : Char} {text rest : List Char}
    (found : afterLiteral quote text = some rest) : rest.length < text.length := by
  fun_induction afterLiteral quote text with
  | case1 => simp at found
  | case2 rest' => simp_all
  | case3 => simp at found
  | case4 _ _ _ induction =>
      have shorter := induction found
      simp only [List.length_cons]
      omega
  | case5 _ _ _ _ induction =>
      have shorter := induction found
      simp only [List.length_cons]
      omega

/-- Cut an expression into tokens. -/
def tokenize (text : List Char) : Except Malformation (List Token) :=
  match text with
  | [] => .ok []
  | character :: rest =>
      if Text.isBlank character then tokenize rest
      else if isQuote character then
        match _found : afterLiteral character rest with
        | none => .error .unterminatedLiteral
        | some remaining => (tokenize remaining).map (.literal :: ·)
      else if character.isDigit then
        (tokenize (rest.dropWhile isNumberCharacter)).map (.number :: ·)
      else if isIdentifierStart character then
        (tokenize (rest.dropWhile isIdentifierCharacter)).map
          (.name (character :: rest.takeWhile isIdentifierCharacter) :: ·)
      else if isOperatorCharacter character then
        (tokenize (rest.dropWhile isOperatorCharacter)).map
          (.operator (character :: rest.takeWhile isOperatorCharacter) :: ·)
      else
        match mark? character with
        | some token => (tokenize rest).map (token :: ·)
        | none => .error (.unexpectedCharacter character)
termination_by text.length
decreasing_by
  all_goals simp only [List.length_cons]
  · omega
  · exact Nat.lt_succ_of_lt (length_of_afterLiteral _found)
  · exact Nat.lt_succ_of_le (Text.length_dropWhile_le _ _)
  · exact Nat.lt_succ_of_le (Text.length_dropWhile_le _ _)
  · exact Nat.lt_succ_of_le (Text.length_dropWhile_le _ _)
  · omega

end Rebac.Expression
