import Rebac.Proofs.Condition.Cutting

/-!
# Texts that can be cut

A text can be cut exactly if each of its literals is closed and nothing stands outside of
them but blanks and the characters of some token.  Otherwise the first place where this
is not so is named.
-/

namespace Rebac.Expression

/-- The characters that may stand outside of literals. -/
def isPlain (character : Char) : Bool :=
  Text.isBlank character || character.isDigit || isIdentifierStart character ||
    isOperatorCharacter character || (mark? character).isSome

theorem not_isQuote_of_isPlain {character : Char} (plain : isPlain character = true) :
    isQuote character = false :=
  not_isQuote_of_class (by decide) plain

theorem isPlain_of_isIdentifierCharacter {character : Char}
    (inside : isIdentifierCharacter character = true) : isPlain character = true := by
  simp only [isIdentifierCharacter, Char.isAlphanum, Bool.or_eq_true] at inside
  rcases inside with (letter | digit) | underscore
  · simp [isPlain, isIdentifierStart, letter]
  · simp [isPlain, digit]
  · simp [isPlain, isIdentifierStart, underscore]

theorem isPlain_of_isNumberCharacter {character : Char}
    (inside : isNumberCharacter character = true) : isPlain character = true := by
  rcases (Bool.or_eq_true _ _).mp inside with alphanumeric | point
  · apply isPlain_of_isIdentifierCharacter
    simp [isIdentifierCharacter, alphanumeric]
  · obtain rfl : character = '.' := by simpa using point
    decide

theorem isPlain_of_isOperatorCharacter {character : Char}
    (inside : isOperatorCharacter character = true) : isPlain character = true := by
  simp [isPlain, inside]

/-- A text whose literals are closed and that holds nothing but plain characters outside
of them. -/
inductive IsClean : List Char → Prop where
  | nil : IsClean []
  | plain {character : Char} {rest : List Char} :
      isPlain character = true →
      IsClean rest →
      IsClean (character :: rest)
  | literal {quote : Char} {body rest : List Char} :
      isQuote quote = true →
      IsLiteralBody quote body →
      IsClean rest →
      IsClean (quote :: (body ++ quote :: rest))

/-- The first place where a text cannot be cut: a character that may not stand outside of
literals, or the opening quote of a literal that is not closed. -/
inductive Strays : List Char → Malformation → Prop where
  | character {front rest : List Char} {character : Char} :
      IsClean front →
      isPlain character = false →
      isQuote character = false →
      Strays (front ++ character :: rest) (.unexpectedCharacter character)
  | literal {front rest : List Char} {quote : Char} :
      IsClean front →
      isQuote quote = true →
      (∀ body later, IsLiteralBody quote body → rest ≠ body ++ quote :: later) →
      Strays (front ++ quote :: rest) .unterminatedLiteral

theorem IsClean.append {text more : List Char} (clean : IsClean text)
    (cleanMore : IsClean more) : IsClean (text ++ more) := by
  induction clean with
  | nil => exact cleanMore
  | plain plain _ induction => exact .plain plain induction
  | literal quote isBody _ induction =>
      rw [List.cons_append, List.append_assoc, List.cons_append]
      exact .literal quote isBody induction

theorem isClean_of_isPlain {run : List Char}
    (plain : ∀ character ∈ run, isPlain character = true) : IsClean run := by
  induction run with
  | nil => exact .nil
  | cons character run induction =>
      have others : ∀ other ∈ run, isPlain other = true :=
        fun other member => plain other (List.mem_cons_of_mem _ member)
      exact .plain (plain character List.mem_cons_self) (induction others)

theorem Cuts.isClean {text : List Char} {found : List Lexeme} (cuts : Cuts text found) :
    IsClean text := by
  induction cuts with
  | nil => exact .nil
  | blank blank _ induction => exact .plain (by simp [isPlain, blank]) induction
  | literal quote isBody _ induction => exact .literal quote isBody induction
  | number digit longest _ induction =>
      have run := isClean_of_isPlain fun other member =>
        isPlain_of_isNumberCharacter (longest.inside other member)
      exact .plain (by simp [isPlain, digit]) (run.append induction)
  | name start longest _ induction =>
      have run := isClean_of_isPlain fun other member =>
        isPlain_of_isIdentifierCharacter (longest.inside other member)
      exact .plain (by simp [isPlain, start]) (run.append induction)
  | operator operator longest _ induction =>
      have run := isClean_of_isPlain fun other member =>
        isPlain_of_isOperatorCharacter (longest.inside other member)
      exact .plain (isPlain_of_isOperatorCharacter operator) (run.append induction)
  | mark mark _ induction => exact .plain (by simp [isPlain, mark]) induction

theorem afterLiteral_eq_none_iff {quote : Char} (noEscape : quote ≠ '\\')
    {text : List Char} :
    afterLiteral quote text = none ↔
      ∀ body later, IsLiteralBody quote body → text ≠ body ++ quote :: later := by
  constructor
  · intro isOpen body later isBody same
    rw [same, isBody.afterLiteral_eq noEscape] at isOpen
    cases isOpen
  · intro isOpen
    cases found : afterLiteral quote text with
    | none => rfl
    | some later =>
        obtain ⟨body, isBody, same⟩ := (afterLiteral_eq_some_iff noEscape).mp found
        exact absurd same (isOpen body later isBody)

theorem IsClean.of_cons {character : Char} {rest : List Char}
    (clean : IsClean (character :: rest)) :
    (isPlain character = true ∧ IsClean rest) ∨
      (isQuote character = true ∧ ∃ body later, IsLiteralBody character body ∧
        rest = body ++ character :: later ∧ IsClean later) := by
  generalize shape : character :: rest = text at clean
  cases clean with
  | nil => cases shape
  | plain plain later =>
      obtain ⟨rfl, rfl⟩ := List.cons.inj shape
      exact .inl ⟨plain, later⟩
  | literal quote isBody later =>
      obtain ⟨rfl, rfl⟩ := List.cons.inj shape
      exact .inr ⟨quote, _, _, isBody, rfl, later⟩

theorem not_isPlain_of_isQuote {character : Char} (quote : isQuote character = true) :
    isPlain character = false := by
  cases plain : isPlain character with
  | false => rfl
  | true =>
      rw [not_isQuote_of_isPlain plain] at quote
      cases quote

theorem IsClean.of_append {front rest : List Char} (cleanFront : IsClean front)
    (clean : IsClean (front ++ rest)) : IsClean rest := by
  induction cleanFront with
  | nil => exact clean
  | plain plain _ induction =>
      rcases IsClean.of_cons clean with ⟨_, later⟩ | ⟨quote, _⟩
      · exact induction later
      · rw [not_isPlain_of_isQuote quote] at plain
        cases plain
  | @literal quote body others isQuote isBody _ induction =>
      rw [List.cons_append, List.append_assoc, List.cons_append] at clean
      rcases clean.of_cons with ⟨plain, _⟩ | ⟨_, bodyToo, later, isBodyToo, same, cleanLater⟩
      · rw [not_isPlain_of_isQuote isQuote] at plain
        cases plain
      · have noEscape := ne_backslash_of_isQuote isQuote
        have first := isBody.afterLiteral_eq noEscape (others ++ rest)
        rw [same, isBodyToo.afterLiteral_eq noEscape] at first
        obtain rfl := Option.some.inj first
        exact induction cleanLater

theorem Strays.not_isClean {text : List Char} {cause : Malformation}
    (strays : Strays text cause) : ¬IsClean text := by
  intro clean
  cases strays with
  | character cleanFront noPlain noQuote =>
      rcases (cleanFront.of_append clean).of_cons with ⟨plain, _⟩ | ⟨quote, _⟩
      · rw [plain] at noPlain
        cases noPlain
      · rw [quote] at noQuote
        cases noQuote
  | literal cleanFront quote isOpen =>
      rcases (cleanFront.of_append clean).of_cons with ⟨plain, _⟩ |
        ⟨_, body, later, isBody, same, _⟩
      · rw [not_isPlain_of_isQuote quote] at plain
        cases plain
      · exact isOpen body later isBody same

theorem Strays.append {front text : List Char} {cause : Malformation}
    (strays : Strays text cause) (clean : IsClean front) : Strays (front ++ text) cause := by
  cases strays with
  | character cleanFront noPlain noQuote =>
      rw [← List.append_assoc]
      exact .character (clean.append cleanFront) noPlain noQuote
  | literal cleanFront quote isOpen =>
      rw [← List.append_assoc]
      exact .literal (clean.append cleanFront) quote isOpen

theorem strays_of_lexemes {text : List Char} {cause : Malformation}
    (failed : lexemes text = .error cause) : Strays text cause := by
  have behind {member : Char → Bool} {character : Char} {rest : List Char}
      (first : isPlain character = true)
      (plain : ∀ other, member other = true → isPlain other = true)
      (strays : Strays (rest.dropWhile member) cause) :
      Strays (character :: rest) cause := by
    have run : IsClean (character :: rest.takeWhile member) := by
      apply isClean_of_isPlain
      intro other inRun
      rcases List.mem_cons.mp inRun with same | inRest
      · rwa [same]
      · exact plain other (List.all_eq_true.mp List.all_takeWhile other inRest)
    have whole := strays.append run
    rwa [List.cons_append, List.takeWhile_append_dropWhile] at whole
  fun_induction lexemes text with
  | case1 => cases failed
  | case2 character rest blank induction =>
      have front : IsClean [character] := isClean_of_isPlain (by simp [isPlain, blank])
      exact (induction failed).append front
  | case3 character rest noBlank quote isOpen =>
      obtain rfl := Except.error.inj failed
      have noEscape := ne_backslash_of_isQuote quote
      exact .literal .nil quote ((afterLiteral_eq_none_iff noEscape).mp isOpen)
  | case4 character rest noBlank quote remaining closed inner =>
      rename_i induction
      have noEscape := ne_backslash_of_isQuote quote
      obtain ⟨body, isBody, rfl⟩ := (afterLiteral_eq_some_iff noEscape).mp closed
      have front := IsClean.literal quote isBody .nil
      have whole := (induction (map_eq_error_iff.mp failed)).append front
      rwa [List.cons_append, List.append_assoc, List.singleton_append] at whole
  | case5 character rest noBlank noQuote digit run =>
      rename_i induction
      exact behind (by simp [isPlain, digit])
        (fun _ => isPlain_of_isNumberCharacter) (induction (map_eq_error_iff.mp failed))
  | case6 character rest noBlank noQuote noDigit start run =>
      rename_i induction
      exact behind (by simp [isPlain, start])
        (fun _ => isPlain_of_isIdentifierCharacter) (induction (map_eq_error_iff.mp failed))
  | case7 character rest noBlank noQuote noDigit noStart operator run =>
      rename_i induction
      exact behind (isPlain_of_isOperatorCharacter operator)
        (fun _ => isPlain_of_isOperatorCharacter) (induction (map_eq_error_iff.mp failed))
  | case8 character rest noBlank noQuote noDigit noStart noOperator token mark induction =>
      have front : IsClean [character] := isClean_of_isPlain (by simp [isPlain, mark])
      exact (induction (map_eq_error_iff.mp failed)).append front
  | case9 character rest noBlank noQuote noDigit noStart noOperator noMark =>
      obtain rfl := Except.error.inj failed
      refine .character .nil ?_ (by simpa using noQuote)
      simp [isPlain, noBlank, noDigit, noStart, noOperator, noMark]

/-- A text is cut exactly if it is clean. -/
theorem isClean_iff {text : List Char} : IsClean text ↔ ∃ found, Cuts text found := by
  constructor
  · intro clean
    cases cut : lexemes text with
    | ok found => exact ⟨found, cuts_of_lexemes cut⟩
    | error cause => exact absurd clean (strays_of_lexemes cut).not_isClean
  · intro cut
    obtain ⟨found, cuts⟩ := cut
    exact cuts.isClean

theorem endsRun_of_not_isPlain {character : Char} (noPlain : isPlain character = false)
    (text : List Char) : EndsRun (character :: text) := by
  have excluded {member : Char → Bool}
      (plain : member character = true → isPlain character = true) :
      member character = false := by
    cases inside : member character with
    | false => rfl
    | true =>
        rw [plain inside] at noPlain
        cases noPlain
  apply endsRun_cons
  simp [excluded isPlain_of_isNumberCharacter, excluded isPlain_of_isIdentifierCharacter,
    excluded isPlain_of_isOperatorCharacter]

theorem Strays.lexemes_eq {text : List Char} {cause : Malformation}
    (strays : Strays text cause) : lexemes text = .error cause := by
  cases strays with
  | @character front rest character cleanFront noPlain noQuote =>
      obtain ⟨found, cuts⟩ := isClean_iff.mp cleanFront
      rw [cuts.lexemes_append (endsRun_of_not_isPlain noPlain rest), map_eq_error_iff]
      simp only [isPlain, Bool.or_eq_false_iff] at noPlain
      obtain ⟨⟨⟨⟨noBlank, noDigit⟩, noStart⟩, noOperator⟩, noMark⟩ := noPlain
      have nothing : mark? character = none := by simpa using noMark
      rw [lexemes, if_neg (by simp [noBlank]), if_neg (by simp [noQuote]),
        if_neg (by simp [noDigit]), if_neg (by simp [noStart]), if_neg (by simp [noOperator]),
        nothing]
  | @literal front rest quote cleanFront isQuote isOpen =>
      obtain ⟨found, cuts⟩ := isClean_iff.mp cleanFront
      have noPlain := not_isPlain_of_isQuote isQuote
      have noEscape := ne_backslash_of_isQuote isQuote
      rw [cuts.lexemes_append (endsRun_of_not_isPlain noPlain rest), map_eq_error_iff]
      exact lexemes_open isQuote ((afterLiteral_eq_none_iff noEscape).mpr isOpen)

/-- Cutting fails exactly for the first place where a text cannot be cut. -/
theorem tokenize_eq_error_iff {text : List Char} {cause : Malformation} :
    tokenize text = .error cause ↔ Strays text cause := by
  rw [tokenize_eq_lexemes, map_eq_error_iff]
  exact ⟨strays_of_lexemes, Strays.lexemes_eq⟩

end Rebac.Expression
