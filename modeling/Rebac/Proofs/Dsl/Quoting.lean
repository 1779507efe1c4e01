import Rebac.Dsl.Statement
import Rebac.Proofs.Condition.Head
import Rebac.Proofs.Condition.Language

/-!
# Quotes in blocks

Whether a place in the text of a block is inside of a string literal can be told from the
quotes in front of it.  If no literal spans lines, the line breaks stand outside of them.
A hash makes no token, so a block that is read holds hashes in literals only.
-/

namespace Rebac.Dsl

namespace Quoting

/-- How a character changes whether a place is inside of a literal. -/
def step : Quoting → Char → Quoting
  | .outside, character =>
      if Expression.isQuote character then .inside character else .outside
  | .inside quote, character =>
      if character = '\\' then .escaped quote
      else if character = quote then .outside
      else .inside quote
  | .escaped quote, _ => .inside quote

/-- How the end of a text stands to the literals in it, which may span lines. -/
def behind (quoting : Quoting) (text : List Char) : Quoting :=
  text.foldl step quoting

@[simp] theorem behind_nil (quoting : Quoting) : quoting.behind [] = quoting := rfl

@[simp] theorem behind_cons (quoting : Quoting) (character : Char) (text : List Char) :
    quoting.behind (character :: text) = (quoting.step character).behind text := rfl

theorem behind_append (quoting : Quoting) (front back : List Char) :
    quoting.behind (front ++ back) = (quoting.behind front).behind back :=
  List.foldl_append

theorem behind_outside {text : List Char}
    (noQuote : ∀ character ∈ text, Expression.isQuote character = false) :
    behind .outside text = .outside := by
  induction text with
  | nil => rfl
  | cons character text induction =>
      have first := noQuote character List.mem_cons_self
      have others := induction fun other member => noQuote other (List.mem_cons_of_mem _ member)
      simp [step, first, others]

theorem behind_literal {quote : Char} {body : List Char}
    (isBody : Expression.IsLiteralBody quote body) :
    behind (.inside quote) body = .inside quote := by
  induction isBody with
  | nil => rfl
  | plain other noEscape _ induction => simp [step, other, noEscape, induction]
  | escaped _ induction => simp [step, induction]

theorem behind_quoted {quote : Char} {body : List Char}
    (isQuote : Expression.isQuote quote = true) (isBody : Expression.IsLiteralBody quote body)
    (rest : List Char) :
    behind .outside (quote :: (body ++ quote :: rest)) = behind .outside rest := by
  have noEscape := Expression.ne_backslash_of_isQuote isQuote
  rw [behind_cons, step, if_pos isQuote, behind_append, behind_literal isBody, behind_cons,
    step, if_neg noEscape, if_pos rfl]

theorem behind_literal_ne {quote : Char} {front back : List Char}
    (isBody : Expression.IsLiteralBody quote (front ++ back)) :
    behind (.inside quote) front ≠ .outside := by
  generalize whole : front ++ back = body at isBody
  induction isBody generalizing front with
  | nil =>
      obtain ⟨rfl, rfl⟩ := List.append_eq_nil_iff.mp whole
      simp
  | plain other noEscape _ induction =>
      cases front with
      | nil => simp
      | cons first front =>
          obtain ⟨rfl, rest⟩ := List.cons.inj whole
          simpa [step, other, noEscape] using induction rest
  | escaped _ induction =>
      cases front with
      | nil => simp
      | cons first front =>
          obtain ⟨rfl, rest⟩ := List.cons.inj whole
          cases front with
          | nil => simp [step]
          | cons second front =>
              obtain ⟨rfl, later⟩ := List.cons.inj rest
              simpa [step] using induction later

theorem behind_of_isClean {text : List Char} (clean : Expression.IsClean text) :
    behind .outside text = .outside := by
  induction clean with
  | nil => rfl
  | plain plain _ induction =>
      have noQuote := Expression.not_isQuote_of_isPlain plain
      simpa [step, noQuote] using induction
  | literal isQuote isBody _ induction =>
      rw [behind_quoted isQuote isBody, induction]

/-- No line break of a text stands in a literal. -/
def IsLevel (text : List Char) : Prop :=
  ∀ front rest, text = front ++ '\n' :: rest → behind .outside front = .outside

theorem IsLevel.cons {character : Char} {rest : List Char}
    (noQuote : Expression.isQuote character = false) (level : IsLevel rest) :
    IsLevel (character :: rest) := by
  intro front tail split
  cases front with
  | nil => rfl
  | cons first front =>
      obtain ⟨rfl, behind⟩ := List.cons.inj split
      rw [behind_cons, step, if_neg (by simp [noQuote])]
      exact level front tail behind

theorem IsLevel.append {run rest : List Char}
    (noQuote : ∀ character ∈ run, Expression.isQuote character = false) (level : IsLevel rest) :
    IsLevel (run ++ rest) := by
  induction run with
  | nil => exact level
  | cons character run induction =>
      have others := fun other member => noQuote other (List.mem_cons_of_mem character member)
      exact .cons (noQuote character List.mem_cons_self) (induction others)

theorem IsLevel.literal {quote : Char} {body rest : List Char}
    (isQuote : Expression.isQuote quote = true) (isBody : Expression.IsLiteralBody quote body)
    (unbroken : '\n' ∉ quote :: (body ++ [quote])) (level : IsLevel rest) :
    IsLevel (quote :: (body ++ quote :: rest)) := by
  intro front tail split
  have whole : (quote :: (body ++ [quote])) ++ rest = front ++ '\n' :: tail := by
    rw [← split]
    simp
  obtain ⟨inner, rfl, behind⟩ := Text.exists_of_append_break unbroken whole
  rw [List.cons_append, List.append_assoc, List.singleton_append, behind_quoted isQuote isBody]
  exact level inner tail behind

/-- If no literal of a text holds a line break, its line breaks stand outside of literals. -/
theorem isLevel_of_cuts {text : List Char} {found : List Expression.Lexeme}
    (cuts : Expression.Cuts text found)
    (unbroken : ∀ lexeme ∈ found, lexeme.token = .literal → '\n' ∉ lexeme.text) :
    IsLevel text := by
  have noQuote : ∀ {character}, Expression.isPlain character = true →
      Expression.isQuote character = false := Expression.not_isQuote_of_isPlain
  have later : ∀ {first : Expression.Lexeme} {others : List Expression.Lexeme},
      (∀ lexeme ∈ first :: others, lexeme.token = .literal → '\n' ∉ lexeme.text) →
        ∀ lexeme ∈ others, lexeme.token = .literal → '\n' ∉ lexeme.text :=
    fun all lexeme member => all lexeme (List.mem_cons_of_mem _ member)
  induction cuts with
  | nil =>
      intro front rest split
      simp at split
  | blank blank _ induction =>
      exact .cons (noQuote (by simp [Expression.isPlain, blank])) (induction unbroken)
  | literal isQuote isBody _ induction =>
      exact .literal isQuote isBody (unbroken _ List.mem_cons_self rfl)
        (induction (later unbroken))
  | number digit longest _ induction =>
      have run := IsLevel.append (fun other member => noQuote
        (Expression.isPlain_of_isNumberCharacter (longest.inside other member)))
        (induction (later unbroken))
      exact .cons (noQuote (by simp [Expression.isPlain, digit])) run
  | name start longest _ induction =>
      have run := IsLevel.append (fun other member => noQuote
        (Expression.isPlain_of_isIdentifierCharacter (longest.inside other member)))
        (induction (later unbroken))
      exact .cons (noQuote (by simp [Expression.isPlain, start])) run
  | operator operator longest _ induction =>
      have run := IsLevel.append (fun other member => noQuote
        (Expression.isPlain_of_isOperatorCharacter (longest.inside other member)))
        (induction (later unbroken))
      exact .cons (noQuote (Expression.isPlain_of_isOperatorCharacter operator)) run
  | mark mark _ induction =>
      exact .cons (noQuote (by simp [Expression.isPlain, mark])) (induction (later unbroken))

end Quoting

/-- In a text that can be cut into tokens, hashes stand in literals only. -/
theorem behind_ne_of_isClean {front rest : List Char}
    (clean : Expression.IsClean (front ++ '#' :: rest)) :
    Quoting.behind .outside front ≠ .outside := by
  generalize whole : front ++ '#' :: rest = text at clean
  induction clean generalizing front with
  | nil => simp at whole
  | plain plain _ induction =>
      cases front with
      | nil =>
          obtain ⟨rfl, _⟩ := List.cons.inj whole
          cases plain
      | cons first front =>
          obtain ⟨rfl, later⟩ := List.cons.inj whole
          have noQuote := Expression.not_isQuote_of_isPlain plain
          simpa [Quoting.step, noQuote] using induction later
  | literal isQuote isBody _ induction =>
      cases front with
      | nil =>
          obtain ⟨rfl, _⟩ := List.cons.inj whole
          cases isQuote
      | cons first front =>
          obtain ⟨rfl, later⟩ := List.cons.inj whole
          rw [Quoting.behind_cons, Quoting.step, if_pos isQuote]
          rcases List.append_eq_append_iff.mp later with
            ⟨inner, rfl, _⟩ | ⟨inner, rfl, behind⟩
          · exact Quoting.behind_literal_ne isBody
          · cases inner with
            | nil =>
                obtain ⟨rfl, _⟩ := List.cons.inj behind
                cases isQuote
            | cons closing inner =>
                obtain ⟨rfl, outside⟩ := List.cons.inj behind
                have noEscape := Expression.ne_backslash_of_isQuote isQuote
                rw [Quoting.behind_append, Quoting.behind_literal isBody, Quoting.behind_cons,
                  Quoting.step, if_neg noEscape, if_pos rfl]
                exact induction outside.symm

theorem isClean_of_allBlank {text : List Char} (blank : Text.AllBlank text) :
    Expression.IsClean text :=
  Expression.isClean_of_isPlain fun character member => by
    simp [Expression.isPlain, blank character member]

theorem isClean_of_blockExpression? {body expression : List Char}
    (found : Condition.blockExpression? body = some expression)
    (clean : Expression.IsClean expression) : Expression.IsClean body := by
  obtain ⟨_, before, after, remark, beforeBlank, afterBlank, remarkBlank, rfl⟩ :=
    Condition.blockExpression?_eq_some_iff.mp found
  have brace : Expression.IsClean ('\x7d' :: remark) :=
    .plain (by decide) (isClean_of_allBlank remarkBlank)
  exact (((isClean_of_allBlank beforeBlank).append clean).append
    (isClean_of_allBlank afterBlank)).append brace

/-- A block that is read holds hashes in literals only. -/
theorem behind_ne_of_ofText {front rest : List Char} {condition : Condition}
    (read : Condition.ofText (front ++ '#' :: rest) = .ok condition) :
    Quoting.behind .outside front ≠ .outside := by
  obtain ⟨head, body, split, signs, found, _⟩ := Condition.exists_head_of_ofText read
  have checked := (Condition.isWellFormed_of_ofText read).checked
  have clean := isClean_of_blockExpression? found (Expression.check_eq_ok_iff.mp checked).clean
  have solid : Text.isBlank '#' = false := by decide
  rw [Text.trim, Text.trimStart_append solid, Text.trimEnd_append solid] at split
  have inBody : ∃ inner, Text.trimStart front = head ++ inner ∧
      body = inner ++ '#' :: Text.trimEnd rest := by
    rcases List.append_eq_append_iff.mp split with ⟨inner, shape, behind⟩ |
      ⟨inner, shape, behind⟩
    · cases inner with
      | nil => exact ⟨[], by simpa using shape.symm, by simpa using behind.symm⟩
      | cons sign inner =>
          obtain ⟨rfl, _⟩ := List.cons.inj behind
          have sign := signs '#' (by simp [shape])
          cases sign
    · exact ⟨inner, shape, behind⟩
  obtain ⟨inner, start, rfl⟩ := inBody
  obtain ⟨blanks, blank, whole⟩ := Text.exists_trimStart front
  have noQuote : ∀ character ∈ blanks ++ head, Expression.isQuote character = false := by
    have excluded : ∀ character, isHeadSign character = true →
        Expression.isQuote character = false :=
      fun character sign => Expression.not_isQuote_of_class (by decide) sign
    intro character member
    rcases List.mem_append.mp member with inBlanks | inHead
    · exact excluded character (isHeadSign_of_isBlank (blank character inBlanks))
    · exact excluded character (signs character inHead)
  rw [whole, start, ← List.append_assoc, Quoting.behind_append, Quoting.behind_outside noQuote]
  exact behind_ne_of_isClean clean

end Rebac.Dsl
