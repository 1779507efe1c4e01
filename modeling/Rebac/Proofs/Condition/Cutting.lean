import Rebac.Proofs.Condition.Lexeme
import Rebac.Proofs.Relation.Spelling
import Rebac.Proofs.Text.Trim

/-!
# Texts that are cut into lexemes

`Cuts` says how a text falls apart: a literal ends at the first quote of its kind that is
not escaped, and a run takes in as many characters of its class as there are.  Cutting
succeeds exactly with these lexemes.  A text is cut on its own in front of another one
that continues none of its runs.
-/

namespace Rebac.Expression

/-- The characters that make tokens on their own. -/
def markCharacters : List Char :=
  ".,([\x7b)]\x7d?:".toList

theorem mem_markCharacters {character : Char} {token : Token}
    (mark : mark? character = some token) : character ∈ markCharacters := by
  unfold mark? at mark
  split at mark
  all_goals first
    | decide
    | cases mark

theorem isQuote_iff {character : Char} :
    isQuote character = true ↔ character ∈ ['"', '\''] := by
  simp [isQuote]

private theorem of_mem_row {row : List Char} {property : Char → Bool}
    (each : row.all property = true) {character : Char} (member : character ∈ row) :
    property character = true :=
  List.all_eq_true.mp each character member

theorem not_isBlank_of_isQuote {character : Char} (quote : isQuote character = true) :
    Text.isBlank character = false := by
  have each : ['"', '\''].all (fun other => !Text.isBlank other) = true := by decide
  simpa using of_mem_row each (isQuote_iff.mp quote)

theorem not_isQuote_of_class {member : Char → Bool}
    (outside : ['"', '\''].any member = false) {character : Char}
    (inside : member character = true) : isQuote character = false := by
  cases quote : isQuote character with
  | false => rfl
  | true =>
      have absent := List.any_eq_false.mp outside character (isQuote_iff.mp quote)
      exact absurd inside absent

theorem not_isBlank_of_isDigit {character : Char} (digit : character.isDigit = true) :
    Text.isBlank character = false := by
  apply not_isBlank_of_isAlphanum
  simp [Char.isAlphanum, digit]

theorem not_isQuote_of_isDigit {character : Char} (digit : character.isDigit = true) :
    isQuote character = false :=
  not_isQuote_of_class (by decide) digit

theorem isNameCharacter_of_isIdentifierStart {character : Char}
    (start : isIdentifierStart character = true) : isNameCharacter character = true := by
  rcases (Bool.or_eq_true _ _).mp start with letter | underscore
  · simp [isNameCharacter, Char.isAlphanum, letter]
  · simp [isNameCharacter, underscore]

theorem not_isDigit_of_isIdentifierStart {character : Char}
    (start : isIdentifierStart character = true) : character.isDigit = false := by
  cases digit : character.isDigit with
  | false => rfl
  | true =>
      have range : 48 ≤ character.toNat ∧ character.toNat ≤ 57 :=
        Char.isDigit_iff_toNat.mp digit
      rcases (Bool.or_eq_true _ _).mp start with letter | underscore
      · rcases (Bool.or_eq_true _ _).mp letter with upper | lower
        · have bounds : 65 ≤ character.toNat ∧ character.toNat ≤ 90 := of_decide_eq_true upper
          omega
        · obtain ⟨least, _⟩ := (Bool.and_eq_true _ _).mp lower
          have above : 97 ≤ character.toNat := of_decide_eq_true least
          omega
      · obtain rfl : character = '_' := by simpa using underscore
        cases digit

private theorem excluded_of_isOperatorCharacter {character : Char}
    (operator : isOperatorCharacter character = true) :
    Text.isBlank character = false ∧ isQuote character = false ∧
      character.isDigit = false ∧ isIdentifierStart character = false := by
  have each : "+-*/%=!<>&|^~".toList.all (fun other =>
      !Text.isBlank other && !isQuote other && !other.isDigit &&
        !isIdentifierStart other) = true := by decide
  have excluded := of_mem_row each (List.contains_iff_mem.mp operator)
  simpa [and_assoc] using excluded

private theorem excluded_of_mark? {character : Char} {token : Token}
    (mark : mark? character = some token) :
    Text.isBlank character = false ∧ isQuote character = false ∧
      character.isDigit = false ∧ isIdentifierStart character = false ∧
        isOperatorCharacter character = false := by
  have each : markCharacters.all (fun other =>
      !Text.isBlank other && !isQuote other && !other.isDigit &&
        !isIdentifierStart other && !isOperatorCharacter other) = true := by decide
  have excluded := of_mem_row each (mem_markCharacters mark)
  simpa [and_assoc] using excluded

/-- What stands between the quotes of a literal. -/
inductive IsLiteralBody (quote : Char) : List Char → Prop where
  | nil : IsLiteralBody quote []
  | plain {character : Char} {body : List Char} :
      character ≠ quote →
      character ≠ '\\' →
      IsLiteralBody quote body →
      IsLiteralBody quote (character :: body)
  | escaped {character : Char} {body : List Char} :
      IsLiteralBody quote body →
      IsLiteralBody quote ('\\' :: character :: body)

theorem ne_backslash_of_isQuote {quote : Char} (isQuote : isQuote quote = true) :
    quote ≠ '\\' := by
  intro same
  subst same
  cases isQuote

theorem IsLiteralBody.afterLiteral_eq {quote : Char} {body : List Char}
    (isBody : IsLiteralBody quote body) (noEscape : quote ≠ '\\') (rest : List Char) :
    afterLiteral quote (body ++ quote :: rest) = some rest := by
  induction isBody with
  | nil =>
      unfold afterLiteral
      simp
  | plain other noBackslash _ induction =>
      unfold afterLiteral
      simp [other, noBackslash, induction]
  | escaped _ induction =>
      unfold afterLiteral
      simp [Ne.symm noEscape, induction]

/-- A literal ends behind the first quote of its kind that is not escaped. -/
theorem afterLiteral_eq_some_iff {quote : Char} (noEscape : quote ≠ '\\')
    {text rest : List Char} :
    afterLiteral quote text = some rest ↔
      ∃ body, IsLiteralBody quote body ∧ text = body ++ quote :: rest := by
  constructor
  · intro found
    fun_induction afterLiteral quote text with
    | case1 => cases found
    | case2 others =>
        obtain rfl := Option.some.inj found
        exact ⟨[], .nil, rfl⟩
    | case3 => cases found
    | case4 character others _ induction =>
        obtain ⟨body, isBody, rfl⟩ := induction found
        exact ⟨'\\' :: character :: body, .escaped isBody, rfl⟩
    | case5 character others other noBackslash induction =>
        obtain ⟨body, isBody, rfl⟩ := induction found
        exact ⟨character :: body, .plain other noBackslash isBody, rfl⟩
  · intro closed
    obtain ⟨body, isBody, rfl⟩ := closed
    exact isBody.afterLiteral_eq noEscape rest

/-- A run that takes in as many characters of a class as there are. -/
structure IsLongest (member : Char → Bool) (run rest : List Char) : Prop where
  inside : ∀ character ∈ run, member character = true
  ends : ∀ character, rest.head? = some character → member character = false

theorem isLongest_takeWhile (member : Char → Bool) (text : List Char) :
    IsLongest member (text.takeWhile member) (text.dropWhile member) := by
  constructor
  · exact List.all_eq_true.mp List.all_takeWhile
  · intro character first
    have outside := List.head?_dropWhile_not member text
    rw [first] at outside
    simpa using outside

theorem IsLongest.span {member : Char → Bool} {run rest : List Char}
    (longest : IsLongest member run rest) :
    (run ++ rest).takeWhile member = run ∧ (run ++ rest).dropWhile member = rest := by
  have stops : rest.takeWhile member = [] ∧ rest.dropWhile member = rest := by
    cases rest with
    | nil => exact ⟨rfl, rfl⟩
    | cons character rest =>
        have outside : ¬ member character = true := by
          rw [longest.ends character rfl]
          exact Bool.false_ne_true
        exact ⟨List.takeWhile_cons_of_neg outside, List.dropWhile_cons_of_neg outside⟩
  rw [List.takeWhile_append_of_pos longest.inside, List.dropWhile_append_of_pos longest.inside,
    stops.1, stops.2]
  exact ⟨List.append_nil run, rfl⟩

/-- How a text falls apart into lexemes. -/
inductive Cuts : List Char → List Lexeme → Prop where
  | nil : Cuts [] []
  | blank {character : Char} {rest : List Char} {lexemes : List Lexeme} :
      Text.isBlank character = true →
      Cuts rest lexemes →
      Cuts (character :: rest) lexemes
  | literal {quote : Char} {body rest : List Char} {lexemes : List Lexeme} :
      isQuote quote = true →
      IsLiteralBody quote body →
      Cuts rest lexemes →
      Cuts (quote :: (body ++ quote :: rest))
        ({ token := .literal, text := quote :: (body ++ [quote]) } :: lexemes)
  | number {character : Char} {run rest : List Char} {lexemes : List Lexeme} :
      character.isDigit = true →
      IsLongest isNumberCharacter run rest →
      Cuts rest lexemes →
      Cuts (character :: (run ++ rest))
        ({ token := .number, text := character :: run } :: lexemes)
  | name {character : Char} {run rest : List Char} {lexemes : List Lexeme} :
      isIdentifierStart character = true →
      IsLongest isIdentifierCharacter run rest →
      Cuts rest lexemes →
      Cuts (character :: (run ++ rest))
        ({ token := .name (character :: run), text := character :: run } :: lexemes)
  | operator {character : Char} {run rest : List Char} {lexemes : List Lexeme} :
      isOperatorCharacter character = true →
      IsLongest isOperatorCharacter run rest →
      Cuts rest lexemes →
      Cuts (character :: (run ++ rest))
        ({ token := .operator (character :: run), text := character :: run } :: lexemes)
  | mark {character : Char} {token : Token} {rest : List Char} {lexemes : List Lexeme} :
      mark? character = some token →
      Cuts rest lexemes →
      Cuts (character :: rest) ({ token, text := [character] } :: lexemes)

section Steps

variable {character : Char} {rest : List Char}

theorem lexemes_blank (blank : Text.isBlank character = true) :
    lexemes (character :: rest) = lexemes rest := by
  rw [lexemes, if_pos blank]

theorem take_literal (character : Char) (body rest : List Char) :
    (body ++ character :: rest).take
      ((body ++ character :: rest).length - rest.length) = body ++ [character] := by
  have length : (body ++ character :: rest).length - rest.length =
      (body ++ [character]).length := by
    simp only [List.length_append, List.length_cons, List.length_nil]
    omega
  rw [length, List.append_cons body character rest]
  exact List.take_left

theorem lexemes_literal {body : List Char} (quote : isQuote character = true)
    (isBody : IsLiteralBody character body) :
    lexemes (character :: (body ++ character :: rest)) =
      (lexemes rest).map
        ({ token := .literal, text := character :: (body ++ [character]) } :: ·) := by
  have found := isBody.afterLiteral_eq (ne_backslash_of_isQuote quote) rest
  rw [lexemes, if_neg (by simp [not_isBlank_of_isQuote quote]), if_pos quote]
  split
  · rename_i failed
    rw [found] at failed
    cases failed
  · rename_i remaining same
    obtain rfl : rest = remaining := by simpa [found] using same
    rw [take_literal]

theorem lexemes_open (quote : isQuote character = true)
    (isOpen : afterLiteral character rest = none) :
    lexemes (character :: rest) = .error .unterminatedLiteral := by
  rw [lexemes, if_neg (by simp [not_isBlank_of_isQuote quote]), if_pos quote]
  split
  · rfl
  · rename_i found
    rw [isOpen] at found
    cases found

theorem lexemes_number {run : List Char} (digit : character.isDigit = true)
    (longest : IsLongest isNumberCharacter run rest) :
    lexemes (character :: (run ++ rest)) =
      (lexemes rest).map ({ token := .number, text := character :: run } :: ·) := by
  obtain ⟨taken, dropped⟩ := longest.span
  rw [lexemes, if_neg (by simp [not_isBlank_of_isDigit digit]),
    if_neg (by simp [not_isQuote_of_isDigit digit]), if_pos digit, taken, dropped]

theorem lexemes_name {run : List Char} (start : isIdentifierStart character = true)
    (longest : IsLongest isIdentifierCharacter run rest) :
    lexemes (character :: (run ++ rest)) =
      (lexemes rest).map
        ({ token := .name (character :: run), text := character :: run } :: ·) := by
  obtain ⟨taken, dropped⟩ := longest.span
  have noBlank := not_isBlank_of_isNameCharacter (isNameCharacter_of_isIdentifierStart start)
  have noQuote : isQuote character = false := not_isQuote_of_class (by decide) start
  rw [lexemes, if_neg (by simp [noBlank]), if_neg (by simp [noQuote]),
    if_neg (by simp [not_isDigit_of_isIdentifierStart start]), if_pos start, taken, dropped]

theorem lexemes_operator {run : List Char} (operator : isOperatorCharacter character = true)
    (longest : IsLongest isOperatorCharacter run rest) :
    lexemes (character :: (run ++ rest)) =
      (lexemes rest).map
        ({ token := .operator (character :: run), text := character :: run } :: ·) := by
  obtain ⟨taken, dropped⟩ := longest.span
  obtain ⟨noBlank, noQuote, noDigit, noStart⟩ := excluded_of_isOperatorCharacter operator
  rw [lexemes, if_neg (by simp [noBlank]), if_neg (by simp [noQuote]),
    if_neg (by simp [noDigit]), if_neg (by simp [noStart]), if_pos operator, taken, dropped]

theorem lexemes_mark {token : Token} (mark : mark? character = some token) :
    lexemes (character :: rest) =
      (lexemes rest).map ({ token, text := [character] } :: ·) := by
  obtain ⟨noBlank, noQuote, noDigit, noStart, noOperator⟩ := excluded_of_mark? mark
  rw [lexemes, if_neg (by simp [noBlank]), if_neg (by simp [noQuote]),
    if_neg (by simp [noDigit]), if_neg (by simp [noStart]), if_neg (by simp [noOperator]),
    mark]

end Steps

theorem Cuts.lexemes_eq {text : List Char} {found : List Lexeme} (cuts : Cuts text found) :
    lexemes text = .ok found := by
  induction cuts with
  | nil => rw [lexemes]
  | blank blank _ induction => rw [lexemes_blank blank, induction]
  | literal quote isBody _ induction =>
      rw [lexemes_literal quote isBody, induction]
      rfl
  | number digit longest _ induction =>
      rw [lexemes_number digit longest, induction]
      rfl
  | name start longest _ induction =>
      rw [lexemes_name start longest, induction]
      rfl
  | operator operator longest _ induction =>
      rw [lexemes_operator operator longest, induction]
      rfl
  | mark mark _ induction =>
      rw [lexemes_mark mark, induction]
      rfl

theorem cuts_of_lexemes {text : List Char} {found : List Lexeme}
    (cut : lexemes text = .ok found) : Cuts text found := by
  have span (member : Char → Bool) (character : Char) (rest : List Char) :
      character :: rest =
        character :: (rest.takeWhile member ++ rest.dropWhile member) := by
    rw [List.takeWhile_append_dropWhile]
  fun_induction lexemes text generalizing found with
  | case1 =>
      obtain rfl := Except.ok.inj cut
      exact .nil
  | case2 character rest blank induction => exact .blank blank (induction cut)
  | case3 => cases cut
  | case4 character rest noBlank quote remaining closed inner =>
      rename_i induction
      obtain ⟨later, cutLater, rfl⟩ := map_eq_ok_iff.mp cut
      have noEscape := ne_backslash_of_isQuote quote
      obtain ⟨body, isBody, rfl⟩ := (afterLiteral_eq_some_iff noEscape).mp closed
      simp only [inner, take_literal]
      exact .literal quote isBody (induction cutLater)
  | case5 character rest noBlank noQuote digit run =>
      rename_i induction
      obtain ⟨later, cutLater, rfl⟩ := map_eq_ok_iff.mp cut
      rw [span isNumberCharacter]
      exact .number digit (isLongest_takeWhile _ _) (induction cutLater)
  | case6 character rest noBlank noQuote noDigit start run =>
      rename_i induction
      obtain ⟨later, cutLater, rfl⟩ := map_eq_ok_iff.mp cut
      rw [span isIdentifierCharacter]
      exact .name start (isLongest_takeWhile _ _) (induction cutLater)
  | case7 character rest noBlank noQuote noDigit noStart operator run =>
      rename_i induction
      obtain ⟨later, cutLater, rfl⟩ := map_eq_ok_iff.mp cut
      rw [span isOperatorCharacter]
      exact .operator operator (isLongest_takeWhile _ _) (induction cutLater)
  | case8 character rest noBlank noQuote noDigit noStart noOperator token mark induction =>
      obtain ⟨later, cutLater, rfl⟩ := map_eq_ok_iff.mp cut
      exact .mark mark (induction cutLater)
  | case9 => cases cut

/-- Cutting succeeds exactly with the lexemes that a text falls apart into. -/
theorem lexemes_eq_ok_iff {text : List Char} {found : List Lexeme} :
    lexemes text = .ok found ↔ Cuts text found :=
  ⟨cuts_of_lexemes, Cuts.lexemes_eq⟩

theorem tokenize_eq_ok_iff {text : List Char} {tokens : List Token} :
    tokenize text = .ok tokens ↔
      ∃ found, Cuts text found ∧ found.map (·.token) = tokens := by
  rw [tokenize_eq_lexemes, map_eq_ok_iff]
  simp only [lexemes_eq_ok_iff]

theorem Cuts.unique {text : List Char} {first second : List Lexeme}
    (cuts : Cuts text first) (other : Cuts text second) : first = second :=
  Except.ok.inj (cuts.lexemes_eq.symm.trans other.lexemes_eq)

/-- Nothing that continues a run. -/
def EndsRun (text : List Char) : Prop :=
  ∀ character, text.head? = some character →
    isNumberCharacter character = false ∧ isIdentifierCharacter character = false ∧
      isOperatorCharacter character = false

theorem endsRun_nil : EndsRun [] := by
  intro character first
  cases first

theorem endsRun_cons {character : Char}
    (outside : (isNumberCharacter character || isIdentifierCharacter character ||
      isOperatorCharacter character) = false) (text : List Char) :
    EndsRun (character :: text) := by
  intro other first
  obtain rfl : character = other := by simpa using first
  simpa [and_assoc] using outside

theorem endsRun_blank_append {blanks text : List Char} (blank : Text.AllBlank blanks)
    (ends : EndsRun text) : EndsRun (blanks ++ text) := by
  cases blanks with
  | nil => exact ends
  | cons character blanks =>
      have first : Text.isBlank character = true := blank character List.mem_cons_self
      have excluded {member : Char → Bool}
          (solid : member character = true → Text.isBlank character = false) :
          member character = false := by
        cases inside : member character with
        | false => rfl
        | true =>
            rw [solid inside] at first
            cases first
      have noNumber : isNumberCharacter character = false := excluded fun inside => by
        rcases (Bool.or_eq_true _ _).mp inside with alphanumeric | point
        · exact not_isBlank_of_isAlphanum alphanumeric
        · obtain rfl : character = '.' := by simpa using point
          decide
      have noIdentifier : isIdentifierCharacter character = false := excluded fun inside =>
        not_isBlank_of_isNameCharacter (isNameCharacter_of_isIdentifierCharacter inside)
      have noOperator : isOperatorCharacter character = false := excluded fun inside =>
        (excluded_of_isOperatorCharacter inside).1
      rw [List.cons_append]
      exact endsRun_cons (by simp [noNumber, noIdentifier, noOperator]) _

theorem Cuts.blank_append {blanks text : List Char} {found : List Lexeme}
    (blank : Text.AllBlank blanks) (cuts : Cuts text found) : Cuts (blanks ++ text) found := by
  induction blanks with
  | nil => exact cuts
  | cons character blanks induction =>
      exact .blank (blank character List.mem_cons_self) (induction blank.tail)

theorem IsLongest.append {member : Char → Bool} {run rest more : List Char}
    (longest : IsLongest member run rest)
    (ends : ∀ character, more.head? = some character → member character = false) :
    IsLongest member run (rest ++ more) := by
  constructor
  · exact longest.inside
  · intro character first
    cases rest with
    | nil => exact ends character first
    | cons other rest => exact longest.ends character first

/-- A text is cut on its own in front of a text that continues no run. -/
theorem Cuts.lexemes_append {text more : List Char} {found : List Lexeme}
    (cuts : Cuts text found) (ends : EndsRun more) :
    lexemes (text ++ more) = (lexemes more).map (found ++ ·) := by
  have behind (first : Lexeme) (later : List Lexeme) :
      ((lexemes more).map (later ++ ·)).map (first :: ·) =
        (lexemes more).map (first :: later ++ ·) := by
    cases lexemes more with
    | error cause => rfl
    | ok others => rfl
  induction cuts with
  | nil =>
      rw [List.nil_append]
      cases lexemes more with
      | error cause => rfl
      | ok others => rfl
  | blank blank _ induction =>
      rw [List.cons_append, lexemes_blank blank, induction]
  | literal quote isBody _ induction =>
      rw [List.cons_append, List.append_assoc, List.cons_append,
        lexemes_literal quote isBody, induction, behind]
  | number digit longest _ induction =>
      have longer := longest.append fun character first => (ends character first).1
      rw [List.cons_append, List.append_assoc, lexemes_number digit longer, induction, behind]
  | name start longest _ induction =>
      have longer := longest.append fun character first => (ends character first).2.1
      rw [List.cons_append, List.append_assoc, lexemes_name start longer, induction, behind]
  | operator operator longest _ induction =>
      have longer := longest.append fun character first => (ends character first).2.2
      rw [List.cons_append, List.append_assoc, lexemes_operator operator longer, induction,
        behind]
  | mark mark _ induction =>
      rw [List.cons_append, lexemes_mark mark, induction, behind]

theorem Cuts.append {text more : List Char} {found later : List Lexeme}
    (cuts : Cuts text found) (ends : EndsRun more) (cutsMore : Cuts more later) :
    Cuts (text ++ more) (found ++ later) := by
  apply cuts_of_lexemes
  rw [cuts.lexemes_append ends, cutsMore.lexemes_eq]
  rfl

theorem Cuts.surrounded {before text after rest : List Char} {found later : List Lexeme}
    (cuts : Cuts text found) (beforeBlank : Text.AllBlank before)
    (afterBlank : Text.AllBlank after) (ends : EndsRun rest) (cutsRest : Cuts rest later) :
    Cuts (before ++ (text ++ (after ++ rest))) (found ++ later) :=
  (cuts.append (endsRun_blank_append afterBlank ends)
    (cutsRest.blank_append afterBlank)).blank_append beforeBlank

end Rebac.Expression
