import Rebac.Condition.Token
import Rebac.Proofs.Outcome

/-!
# Lexemes of expressions

A lexeme is a token together with the text that spells it.  Cutting a text into
lexemes and forgetting the spellings yields its tokens.
-/

namespace Rebac.Expression

structure Lexeme where
  token : Token
  text : List Char
  deriving Repr, DecidableEq

/-- Cut an expression into lexemes. -/
def lexemes (text : List Char) : Except Malformation (List Lexeme) :=
  match text with
  | [] => .ok []
  | character :: rest =>
      if Text.isBlank character then lexemes rest
      else if isQuote character then
        match _found : afterLiteral character rest with
        | none => .error .unterminatedLiteral
        | some remaining =>
            let inner := rest.take (rest.length - remaining.length)
            (lexemes remaining).map
              ({ token := .literal, text := character :: inner } :: ·)
      else if character.isDigit then
        let run := character :: rest.takeWhile isNumberCharacter
        (lexemes (rest.dropWhile isNumberCharacter)).map
          ({ token := .number, text := run } :: ·)
      else if isIdentifierStart character then
        let run := character :: rest.takeWhile isIdentifierCharacter
        (lexemes (rest.dropWhile isIdentifierCharacter)).map
          ({ token := .name run, text := run } :: ·)
      else if isOperatorCharacter character then
        let run := character :: rest.takeWhile isOperatorCharacter
        (lexemes (rest.dropWhile isOperatorCharacter)).map
          ({ token := .operator run, text := run } :: ·)
      else
        match mark? character with
        | some token => (lexemes rest).map ({ token, text := [character] } :: ·)
        | none => .error (.unexpectedCharacter character)
termination_by text.length
decreasing_by
  all_goals simp only [List.length_cons]
  · omega
  · exact Nat.lt_succ_of_lt (length_of_afterLiteral _found)
  · exact Nat.lt_succ_of_le (Text.length_dropWhile_le _ _)
  · exact Nat.lt_succ_of_le (Text.length_dropWhile_le _ _)
  · exact Nat.lt_succ_of_le (Text.length_dropWhile_le _ _)
  · omega

/-- The string literals of an expression with their quotes. -/
def literals (text : List Char) : List (List Char) :=
  match lexemes text with
  | .ok lexemes => (lexemes.filter (·.token = .literal)).map (·.text)
  | .error _ => []

private theorem map_cons_map (first : Lexeme)
    (found : Except Malformation (List Lexeme)) :
    (found.map (first :: ·)).map (·.map (·.token)) =
      (found.map (·.map (·.token))).map (first.token :: ·) := by
  cases found <;> rfl

/-- The tokens of an expression are those of its lexemes. -/
theorem tokenize_eq_lexemes (text : List Char) :
    tokenize text = (lexemes text).map (·.map (·.token)) := by
  fun_induction lexemes text with
  | case1 => rw [tokenize]; rfl
  | case2 character rest blank induction =>
      rw [tokenize, if_pos blank]
      exact induction
  | case3 character rest noBlank quote failed =>
      rw [tokenize, if_neg noBlank, if_pos quote]
      split
      · rfl
      · rename_i found
        rw [failed] at found
        cases found
  | case4 character rest noBlank quote remaining found inner induction =>
      rw [tokenize, if_neg noBlank, if_pos quote]
      split
      · rename_i failed
        rw [found] at failed
        cases failed
      · rename_i other same
        obtain rfl : remaining = other := by simpa [found] using same
        rw [map_cons_map, induction]
  | case5 character rest noBlank noQuote digit run induction =>
      rw [tokenize, if_neg noBlank, if_neg noQuote, if_pos digit, map_cons_map, induction]
  | case6 character rest noBlank noQuote noDigit start run induction =>
      rw [tokenize, if_neg noBlank, if_neg noQuote, if_neg noDigit, if_pos start,
        map_cons_map, induction]
  | case7 character rest noBlank noQuote noDigit noStart operator run induction =>
      rw [tokenize, if_neg noBlank, if_neg noQuote, if_neg noDigit, if_neg noStart,
        if_pos operator, map_cons_map, induction]
  | case8 character rest noBlank noQuote noDigit noStart noOperator token found
      induction =>
      rw [tokenize, if_neg noBlank, if_neg noQuote, if_neg noDigit, if_neg noStart,
        if_neg noOperator, found, map_cons_map, induction]
  | case9 character rest noBlank noQuote noDigit noStart noOperator failed =>
      rw [tokenize, if_neg noBlank, if_neg noQuote, if_neg noDigit, if_neg noStart,
        if_neg noOperator, failed]
      rfl

theorem literals_eq_nil {text : List Char} {tokens : List Token}
    (cut : tokenize text = .ok tokens) (noLiteral : .literal ∉ tokens) :
    literals text = [] := by
  rw [tokenize_eq_lexemes] at cut
  obtain ⟨found, shape, rfl⟩ := map_eq_ok_iff.mp cut
  rw [literals, shape]
  simp only
  rw [List.map_eq_nil_iff, List.filter_eq_nil_iff]
  intro lexeme member literal
  apply noLiteral
  rw [← of_decide_eq_true literal]
  exact List.mem_map_of_mem member

end Rebac.Expression
