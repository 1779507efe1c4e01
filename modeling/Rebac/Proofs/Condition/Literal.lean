import Rebac.Proofs.Condition.Clean
import Rebac.Proofs.Condition.Head
import Rebac.Proofs.Text.Hole

/-!
# What literals hold

What stands between the quotes of a string literal makes no difference to the tokens of an
expression, and so none to whether the expression is accepted.  A block with one expression
exchanged for another that is accepted yields the same condition otherwise.
-/

namespace Rebac

namespace Expression

/-- A text that can be the body of a literal as it stands. -/
structure IsPlainBody (quote : Char) (body : List Char) : Prop where
  noQuote : quote ∉ body
  noEscape : '\\' ∉ body
  unbroken : '\n' ∉ body

instance (quote : Char) (body : List Char) : Decidable (IsPlainBody quote body) :=
  decidable_of_iff (quote ∉ body ∧ '\\' ∉ body ∧ '\n' ∉ body)
    ⟨fun ⟨noQuote, noEscape, unbroken⟩ => ⟨noQuote, noEscape, unbroken⟩,
      fun ⟨noQuote, noEscape, unbroken⟩ => ⟨noQuote, noEscape, unbroken⟩⟩

theorem IsPlainBody.isLiteralBody {quote : Char} {body : List Char}
    (plain : IsPlainBody quote body) : IsLiteralBody quote body := by
  obtain ⟨noQuote, noEscape, -⟩ := plain
  induction body with
  | nil => exact .nil
  | cons character body induction =>
      simp only [List.mem_cons, not_or] at noQuote noEscape
      exact .plain (Ne.symm noQuote.1) (Ne.symm noEscape.1) (induction noQuote.2 noEscape.2)

theorem IsLongest.of_append {member : Char → Bool} {run left rest : List Char}
    (longest : IsLongest member run (left ++ rest)) : IsLongest member run left := by
  refine ⟨longest.inside, fun character first => longest.ends character ?_⟩
  rw [List.head?_append, first]
  rfl

theorem Cuts.exists_start {text : List Char} {first : Lexeme} {later : List Lexeme}
    (cuts : Cuts text (first :: later)) :
    ∃ start rest, text = start ++ rest ∧ Cuts rest later ∧
      ∀ {left more inner}, rest = left ++ more → Cuts left inner →
        Cuts (start ++ left) (first :: inner) := by
  generalize shape : first :: later = found at cuts
  induction cuts with
  | nil => cases shape
  | blank blank cutsRest induction =>
      rename_i character rest lexemes
      obtain ⟨start, rest, rfl, cutsRest, regrow⟩ := induction shape
      exact ⟨character :: start, rest, rfl, cutsRest,
        fun same cutsLeft => .blank blank (regrow same cutsLeft)⟩
  | literal isQuote isBody cutsRest induction =>
      rename_i quote body rest lexemes
      obtain ⟨rfl, rfl⟩ := List.cons.inj shape
      refine ⟨quote :: (body ++ [quote]), rest, by simp, cutsRest, fun _ cutsLeft => ?_⟩
      simpa using Cuts.literal isQuote isBody cutsLeft
  | number digit longest cutsRest induction =>
      rename_i character run rest lexemes
      obtain ⟨rfl, rfl⟩ := List.cons.inj shape
      exact ⟨character :: run, rest, rfl, cutsRest,
        fun same cutsLeft => .number digit (same ▸ longest).of_append cutsLeft⟩
  | name start longest cutsRest induction =>
      rename_i character run rest lexemes
      obtain ⟨rfl, rfl⟩ := List.cons.inj shape
      exact ⟨character :: run, rest, rfl, cutsRest,
        fun same cutsLeft => .name start (same ▸ longest).of_append cutsLeft⟩
  | operator operator longest cutsRest induction =>
      rename_i character run rest lexemes
      obtain ⟨rfl, rfl⟩ := List.cons.inj shape
      exact ⟨character :: run, rest, rfl, cutsRest,
        fun same cutsLeft => .operator operator (same ▸ longest).of_append cutsLeft⟩
  | mark mark cutsRest induction =>
      rename_i character token rest lexemes
      obtain ⟨rfl, rfl⟩ := List.cons.inj shape
      exact ⟨[character], rest, rfl, cutsRest, fun _ cutsLeft => .mark mark cutsLeft⟩

theorem Cuts.exists_append {text : List Char} {front back : List Lexeme}
    (cuts : Cuts text (front ++ back)) :
    ∃ left rest, text = left ++ rest ∧ Cuts left front ∧ Cuts rest back := by
  induction front generalizing text with
  | nil => exact ⟨[], text, rfl, .nil, cuts⟩
  | cons first front induction =>
      obtain ⟨start, rest, rfl, cutsRest, regrow⟩ := cuts.exists_start
      obtain ⟨left, rest, rfl, cutsLeft, cutsBack⟩ := induction cutsRest
      exact ⟨start ++ left, rest, by simp, regrow rfl cutsLeft, cutsBack⟩

theorem mark?_ne_literal (character : Char) : mark? character ≠ some .literal := by
  intro mark
  unfold mark? at mark
  split at mark
  all_goals cases mark

theorem Cuts.exists_literal {text word : List Char} {later : List Lexeme}
    (cuts : Cuts text ({ token := .literal, text := word } :: later)) :
    ∃ blanks quote body rest, Text.AllBlank blanks ∧
      text = blanks ++ quote :: (body ++ quote :: rest) ∧ word = quote :: (body ++ [quote]) ∧
        isQuote quote = true ∧ IsLiteralBody quote body ∧ Cuts rest later := by
  generalize found : ({ token := .literal, text := word } : Lexeme) :: later = lexemes at cuts
  induction cuts with
  | nil => cases found
  | blank blank cutsRest induction =>
      rename_i character rest lexemes
      obtain ⟨blanks, quote, body, rest, allBlank, rfl, literal⟩ := induction found
      have longer : Text.AllBlank (character :: blanks) :=
        List.forall_mem_cons.mpr ⟨blank, allBlank⟩
      exact ⟨character :: blanks, quote, body, rest, longer, rfl, literal⟩
  | literal isQuote isBody cutsRest induction =>
      rename_i quote body rest lexemes
      obtain ⟨sameLexeme, rfl⟩ := List.cons.inj found
      exact ⟨[], quote, body, rest, Text.allBlank_nil, rfl,
        congrArg Lexeme.text sameLexeme, isQuote, isBody, cutsRest⟩
  | mark mark cutsRest induction =>
      rename_i character token rest lexemes
      obtain ⟨sameLexeme, _⟩ := List.cons.inj found
      obtain rfl : Token.literal = token := congrArg Lexeme.token sameLexeme
      exact absurd mark (mark?_ne_literal character)
  | _ => cases congrArg Lexeme.token (List.cons.inj found).1

theorem isLiteralBody_of_cuts {quote : Char} {body rest : List Char} {later : List Lexeme}
    (isQuote : isQuote quote = true)
    (cuts : Cuts (quote :: (body ++ quote :: rest))
      ({ token := .literal, text := quote :: (body ++ [quote]) } :: later)) :
    IsLiteralBody quote body ∧ Cuts rest later := by
  obtain ⟨blanks, other, inner, behind, blank, shape, word, _, isBody, cutsRest⟩ :=
    cuts.exists_literal
  obtain ⟨rfl, sameBody⟩ := List.cons.inj word
  obtain rfl := List.append_cancel_right sameBody
  cases blanks with
  | nil =>
      obtain rfl := (List.cons.inj (List.append_cancel_left (List.cons.inj shape).2)).2
      exact ⟨isBody, cutsRest⟩
  | cons character blanks =>
      obtain ⟨rfl, _⟩ := List.cons.inj shape
      have solid := not_isBlank_of_isQuote isQuote
      rw [blank _ List.mem_cons_self] at solid
      cases solid

end Expression

open Expression

namespace Hole

/-- The hole is that of a string literal, which has the body. -/
structure HoldsLiteral (hole : Hole) (body : List Char) : Prop where
  isQuote : isQuote hole.quote = true
  lexeme : ∃ front back, lexemes hole.left = .ok front ∧
    lexemes (hole.fill body) = .ok (front ++
      { token := .literal, text := hole.quote :: (body ++ [hole.quote]) } :: back)

variable {hole : Hole} {body other : List Char}

/-- Every literal of a text stands in a hole. -/
theorem exists_holdsLiteral {text word : List Char} {front back : List Lexeme}
    (cut : lexemes text = .ok (front ++ { token := .literal, text := word } :: back)) :
    ∃ (hole : Hole) (body : List Char), text = hole.fill body ∧ hole.HoldsLiteral body ∧
      lexemes hole.left = .ok front ∧ word = hole.quote :: (body ++ [hole.quote]) := by
  obtain ⟨left, behind, rfl, cutsLeft, cutsBehind⟩ := (cuts_of_lexemes cut).exists_append
  obtain ⟨blanks, quote, body, right, blank, rfl, rfl, isQuote, _, _⟩ :=
    cutsBehind.exists_literal
  have cutsFront : Cuts (left ++ blanks) front := by
    have skipped := cutsLeft.surrounded Text.allBlank_nil blank endsRun_nil .nil
    simpa using skipped
  refine ⟨⟨left ++ blanks, quote, right⟩, body, by simp [fill], ⟨isQuote, front, back,
    cutsFront.lexemes_eq, ?_⟩, cutsFront.lexemes_eq, rfl⟩
  rw [← cut]
  simp [fill]

theorem HoldsLiteral.exists_cuts (holds : hole.HoldsLiteral body) :
    IsLiteralBody hole.quote body ∧
      ∃ front back, Cuts hole.left front ∧ Cuts hole.right back := by
  obtain ⟨isQuote, front, back, cutLeft, cutWhole⟩ := holds
  have cuts := cuts_of_lexemes cutLeft
  have ends := endsRun_of_not_isPlain (not_isPlain_of_isQuote isQuote)
    (body ++ hole.quote :: hole.right)
  rw [fill, cuts.lexemes_append ends, map_eq_ok_iff] at cutWhole
  obtain ⟨later, cutLater, same⟩ := cutWhole
  obtain rfl := List.append_cancel_left same
  obtain ⟨isBody, cutsRight⟩ := isLiteralBody_of_cuts isQuote (cuts_of_lexemes cutLater)
  exact ⟨isBody, front, back, cuts, cutsRight⟩

theorem lexemes_fill {front back : List Lexeme} (isQuote : isQuote hole.quote = true)
    (isBody : IsLiteralBody hole.quote body) (cutsLeft : Cuts hole.left front)
    (cutsRight : Cuts hole.right back) :
    lexemes (hole.fill body) = .ok (front ++
      { token := .literal, text := hole.quote :: (body ++ [hole.quote]) } :: back) :=
  (cutsLeft.append (endsRun_of_not_isPlain (not_isPlain_of_isQuote isQuote) _)
    (.literal isQuote isBody cutsRight)).lexemes_eq

theorem HoldsLiteral.tokenize_eq (holds : hole.HoldsLiteral body)
    (isBody : IsLiteralBody hole.quote other) :
    tokenize (hole.fill other) = tokenize (hole.fill body) := by
  obtain ⟨wasBody, front, back, cutsLeft, cutsRight⟩ := holds.exists_cuts
  rw [tokenize_eq_lexemes, tokenize_eq_lexemes, lexemes_fill holds.isQuote isBody cutsLeft
    cutsRight, lexemes_fill holds.isQuote wasBody cutsLeft cutsRight]
  simp [Except.map]

/-- What a literal holds does not matter to whether an expression is accepted. -/
theorem HoldsLiteral.check_eq (holds : hole.HoldsLiteral body)
    (isBody : IsLiteralBody hole.quote other) (parameters : List String) :
    check parameters (hole.fill other) = check parameters (hole.fill body) := by
  have filled : ∀ inner, (Text.trim (hole.fill inner)).isEmpty = false := by
    intro inner
    rw [trim_fill (not_isBlank_of_isQuote holds.isQuote)]
    simp [fill]
  rw [check, check, filled, filled, holds.tokenize_eq isBody]

end Hole

namespace Condition

open Hole

/-- A block keeps the literals of its expression behind a text without quotes, and filled
with another body it yields the condition with that body. -/
theorem exists_fill_of_ofText {text body : List Char} {condition : Condition} {hole : Hole}
    (read : ofText text = .ok condition) (expression : condition.expression.toList = hole.fill body)
    (holds : hole.HoldsLiteral body) :
    ∃ front back, text = (hole.widen front back).fill body ∧
      (∀ character ∈ front, isQuote character = false) ∧
        ∀ other, IsLiteralBody hole.quote other →
          ofText ((hole.widen front back).fill other) =
            .ok { condition with expression := String.ofList (hole.fill other) } := by
  obtain ⟨head, inner, split, signs, found, exchange⟩ := exists_head_of_ofText read
  rw [expression] at found
  obtain ⟨tight, before, after, remark, beforeBlank, afterBlank, remarkBlank, rfl⟩ :=
    blockExpression?_eq_some_iff.mp found
  have checked := (isWellFormed_of_ofText read).checked
  have trimmed : Text.trim text =
      (hole.widen (head ++ before) (after ++ '\x7d' :: remark)).fill body := by
    rw [split, fill_widen]
    simp only [List.append_assoc]
  obtain ⟨start, finish, startBlank, rfl, trimOuter⟩ := exists_trim_fill trimmed
  rw [widen_widen] at trimOuter ⊢
  refine ⟨_, _, rfl, ?_, fun other isBody => ?_⟩
  · have excluded : ∀ character, isHeadSign character = true → isQuote character = false :=
      fun character sign => not_isQuote_of_class (by decide) sign
    intro character member
    rcases List.mem_append.mp member with inStart | member
    · exact excluded character (isHeadSign_of_isBlank (startBlank character inStart))
    · rcases List.mem_append.mp member with inHead | inBefore
      · exact excluded character (signs character inHead)
      · exact excluded character (isHeadSign_of_isBlank (beforeBlank character inBefore))
  · have otherBody : blockExpression? (before ++ hole.fill other ++ after ++ '\x7d' :: remark) =
        some (hole.fill other) :=
      blockExpression?_eq_some_iff.mpr ⟨isTight_fill tight other, before, after, remark,
        beforeBlank, afterBlank, remarkBlank, rfl⟩
    refine exchange ?_ otherBody ?_
    · rw [trimOuter, fill_widen]
      simp only [List.append_assoc]
    · rw [holds.check_eq isBody, ← expression]
      exact checked

end Condition

end Rebac
