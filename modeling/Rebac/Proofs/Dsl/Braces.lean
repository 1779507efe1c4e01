import Rebac.Condition.Expression
import Rebac.Dsl.Statement
import Rebac.Proofs.Condition.Lexeme
import Rebac.Proofs.Outcome
import Rebac.Proofs.Text.Lines
import Rebac.Proofs.Text.Trim

/-!
# Braces of the lines of a block

An expression fits a block if its lines neither look like comments nor close
the block, and leave the nesting of braces as they found it.  An expression
whose brackets nest fits a block unless one of its string literals spans a line
break: only there do the scanner of lines and the tokens of expressions take
different views of a brace.
-/

namespace Rebac.Dsl

/-- The nesting behind some lines of an open block, unless one of them is
dropped as a comment or closes the block. -/
def bracesBehind? : Braces → List (List Char) → Option Braces
  | braces, [] => some braces
  | braces, line :: lines =>
      if startsComment (Text.trim line) then none
      else
        match countBraces .outside braces line with
        | .pending braces => bracesBehind? braces lines
        | .closed _ _ => none

/-- The nesting right behind the brace that opens a block. -/
def Braces.entered : Braces :=
  Braces.start.enter

/-- Whether the lines of an expression leave the block around them open and
complete. -/
def FitsBlock (expression : List Char) : Prop :=
  bracesBehind? Braces.entered (expression.splitOn '\n') = some Braces.entered

instance (expression : List Char) : Decidable (FitsBlock expression) :=
  inferInstanceAs (Decidable (_ = _))

/-- What one character does to the nesting of braces, unless it closes the
block. -/
def stepBraces : Quoting → Braces → Char → Option (Quoting × Braces)
  | .inside quote, braces, character =>
      if character = '\\' then some (.escaped quote, braces)
      else if character = quote then some (.outside, braces)
      else some (.inside quote, braces)
  | .escaped quote, braces, _ => some (.inside quote, braces)
  | .outside, braces, character =>
      if Expression.isQuote character then some (.inside character, braces)
      else if character = '\x7b' then some (.outside, braces.enter)
      else if character = '\x7d' then
        if braces.leave.isClosed then none else some (.outside, braces.leave)
      else some (.outside, braces)

/-- The nesting behind a text, read character by character.  The flag says
whether only blanks were read since the last line break. -/
def bracesThrough? : Bool → Quoting → Braces → List Char → Option Braces
  | _, _, braces, [] => some braces
  | fresh, quoting, braces, character :: rest =>
      if character = '\n' then bracesThrough? true .outside braces rest
      else if fresh && character = '#' then none
      else
        match stepBraces quoting braces character with
        | some (quoting, braces) =>
            bracesThrough? (fresh && Text.isBlank character) quoting braces rest
        | none => none

theorem startsComment_trim (text : List Char) :
    startsComment (Text.trim text) = startsComment (Text.trimStart text) := by
  unfold Text.trim
  cases shape : Text.trimStart text with
  | nil => rfl
  | cons character rest =>
      have solid : Text.isBlank character = false :=
        Text.head_trimStart (by rw [shape]; rfl : (Text.trimStart text).head? = _)
      have trimmed : Text.trimEnd ([] ++ character :: rest) =
          [] ++ character :: Text.trimEnd rest := Text.trimEnd_append solid rest
      rw [List.nil_append, List.nil_append] at trimmed
      rw [trimmed]
      unfold startsComment
      split <;> simp_all

/-- The rest of a line, which was read up to some point. -/
private def restOfLine (fresh : Bool) (quoting : Quoting) (braces : Braces) :
    List (List Char) → Option Braces
  | [] => some braces
  | line :: lines =>
      if fresh && startsComment (Text.trim line) then none
      else
        match countBraces quoting braces line with
        | .pending braces => bracesBehind? braces lines
        | .closed _ _ => none

theorem countBraces_cons (quoting : Quoting) (braces : Braces)
    (character : Char) (rest : List Char) :
    countBraces quoting braces (character :: rest) =
      match stepBraces quoting braces character with
      | some (quoting, braces) => (countBraces quoting braces rest).behind character
      | none => .closed [character] rest := by
  cases quoting with
  | outside =>
      simp only [countBraces, stepBraces]
      split
      · rfl
      · split
        · rfl
        · split
          · split
            · rfl
            · rfl
          · rfl
  | inside quote =>
      simp only [countBraces, stepBraces]
      split
      · rfl
      · split <;> rfl
  | escaped quote => rfl

theorem startsComment_trim_cons (character : Char) (rest : List Char) :
    startsComment (Text.trim (character :: rest)) =
      if Text.isBlank character then startsComment (Text.trim rest)
      else decide (character = '#') := by
  rw [startsComment_trim, startsComment_trim]
  unfold Text.trimStart
  cases blank : Text.isBlank character with
  | true => rw [List.dropWhile_cons_of_pos blank, if_pos rfl]
  | false =>
      rw [List.dropWhile_cons_of_neg (by simp [blank]), if_neg (by simp)]
      unfold startsComment
      split
      · rename_i shape
        simp [(List.cons.inj shape).1]
      · rename_i other
        have different : character ≠ '#' := by
          rintro rfl
          exact other rest rfl
        simp [different]

private theorem bracesThrough?_eq_restOfLine (text : List Char) :
    ∀ (fresh : Bool) (quoting : Quoting) (braces : Braces),
      bracesThrough? fresh quoting braces text =
        restOfLine fresh quoting braces (text.splitOn '\n') := by
  have ended : ∀ quoting braces, countBraces quoting braces [] = .pending braces := by
    intro quoting braces
    cases quoting <;> rfl
  induction text with
  | nil =>
      intro fresh quoting braces
      have noComment : startsComment (Text.trim []) = false := rfl
      simp [bracesThrough?, restOfLine, ended, noComment, bracesBehind?]
  | cons character rest induction =>
      intro fresh quoting braces
      obtain ⟨line, lines, shape⟩ :=
        List.exists_cons_of_ne_nil (List.splitOn_ne_nil '\n' rest)
      have split : (character :: rest).splitOn '\n' =
          if character = '\n' then [] :: line :: lines
          else (character :: line) :: lines := by
        simp [List.splitOn_cons_eq_if_modifyHead, shape]
      rw [shape] at induction
      rw [bracesThrough?, split]
      by_cases newline : character = '\n'
      · have noComment : startsComment (Text.trim []) = false := rfl
        rw [if_pos newline, if_pos newline, induction]
        simp [restOfLine, ended, noComment, bracesBehind?]
      · rw [if_neg newline, if_neg newline]
        simp only [restOfLine, startsComment_trim_cons, countBraces_cons]
        cases stepBraces quoting braces character with
        | none => simp
        | some next =>
            have behind : ∀ outcome : LineEnd,
                (match outcome.behind character with
                | .pending braces => bracesBehind? braces lines
                | .closed _ _ => none) =
                  match outcome with
                  | .pending braces => bracesBehind? braces lines
                  | .closed _ _ => none := by
              intro outcome
              cases outcome <;> rfl
            simp only [induction, restOfLine, behind]
            cases blank : Text.isBlank character with
            | true =>
                have noHash : character ≠ '#' := by
                  rintro rfl
                  exact absurd blank (by decide)
                simp [noHash]
            | false => simp

theorem bracesThrough?_eq_bracesBehind? (braces : Braces) (text : List Char) :
    bracesThrough? true .outside braces text =
      bracesBehind? braces (text.splitOn '\n') := by
  obtain ⟨line, lines, shape⟩ :=
    List.exists_cons_of_ne_nil (List.splitOn_ne_nil '\n' text)
  rw [bracesThrough?_eq_restOfLine, shape, restOfLine, bracesBehind?, Bool.true_and]

/-- The nesting of curly brackets behind some tokens, unless one of them closes
the block. -/
def tokenBraces? : Braces → List Expression.Token → Option Braces
  | braces, [] => some braces
  | braces, .opening .curly :: tokens => tokenBraces? braces.enter tokens
  | braces, .closing .curly :: tokens =>
      if braces.leave.isClosed then none else tokenBraces? braces.leave tokens
  | braces, _ :: tokens => tokenBraces? braces tokens

/-- A character that neither ends a line nor matters to comments, literals or
braces. -/
def IsInert (character : Char) : Prop :=
  character ≠ '\n' ∧ character ≠ '#' ∧ Expression.isQuote character = false ∧
    character ≠ '\x7b' ∧ character ≠ '\x7d'

/-- The characters that are not inert. -/
def activeMarks : List Char :=
  ['\n', '#', '"', '\'', '\x7b', '\x7d']

theorem isInert_of_class (member : Char → Bool) (outside : activeMarks.any member = false)
    {character : Char} (inside : member character = true) : IsInert character := by
  have different : ∀ other ∈ activeMarks, character ≠ other := by
    intro other active same
    subst same
    exact List.any_eq_false.mp outside character active inside
  simp only [activeMarks, List.forall_mem_cons] at different
  obtain ⟨noBreak, noHash, noDouble, noSingle, noOpening, noClosing, _⟩ := different
  refine ⟨noBreak, noHash, ?_, noOpening, noClosing⟩
  simp [Expression.isQuote, noDouble, noSingle]

theorem bracesThrough?_inert {character : Char} (inert : IsInert character)
    (fresh : Bool) (braces : Braces) (rest : List Char) :
    bracesThrough? fresh .outside braces (character :: rest) =
      bracesThrough? (fresh && Text.isBlank character) .outside braces rest := by
  obtain ⟨noBreak, noHash, noQuote, noOpening, noClosing⟩ := inert
  simp [bracesThrough?, stepBraces, noBreak, noHash, noQuote, noOpening, noClosing]

theorem bracesThrough?_inert_append {run rest : List Char}
    (inert : ∀ character ∈ run, IsInert character) {braces : Braces}
    {outcome : Option Braces}
    (later : ∀ fresh, bracesThrough? fresh .outside braces rest = outcome)
    (fresh : Bool) :
    bracesThrough? fresh .outside braces (run ++ rest) = outcome := by
  induction run generalizing fresh with
  | nil => exact later fresh
  | cons character run induction =>
      rw [List.cons_append, bracesThrough?_inert (inert character (by simp))]
      exact induction (fun other member => inert other (by simp [member])) _

theorem bracesThrough?_run (member : Char → Bool)
    (outside : activeMarks.any member = false)
    {first : Char} (inert : IsInert first) {rest : List Char} {braces : Braces}
    {outcome : Option Braces}
    (later : ∀ fresh,
      bracesThrough? fresh .outside braces (rest.dropWhile member) = outcome)
    (fresh : Bool) :
    bracesThrough? fresh .outside braces (first :: rest) = outcome := by
  have run : ∀ character ∈ first :: rest.takeWhile member, IsInert character := by
    intro character inRun
    rcases List.mem_cons.mp inRun with rfl | inRest
    · exact inert
    · exact isInert_of_class member outside
        (List.all_eq_true.mp List.all_takeWhile character inRest)
  have whole := bracesThrough?_inert_append run later fresh
  rwa [List.cons_append, List.takeWhile_append_dropWhile] at whole

/-- A literal on one line hides whatever it holds. -/
theorem bracesThrough?_literal {quote : Char} {text rest : List Char}
    (isQuote : Expression.isQuote quote = true)
    (found : Expression.afterLiteral quote text = some rest) :
    ∃ inner, text = inner ++ rest ∧
      ('\n' ∉ inner → ∀ braces, bracesThrough? false (.inside quote) braces text =
        bracesThrough? false .outside braces rest) := by
  have noEscape : quote ≠ '\\' := by
    rintro rfl
    exact absurd isQuote (by decide)
  have noBreak : quote ≠ '\n' := by
    rintro rfl
    exact absurd isQuote (by decide)
  fun_induction Expression.afterLiteral quote text with
  | case1 => simp at found
  | case2 others =>
      obtain rfl : others = rest := by simpa using found
      refine ⟨[quote], rfl, ?_⟩
      intro _ braces
      simp [bracesThrough?, stepBraces, noEscape, noBreak]
  | case3 => simp at found
  | case4 escaped others _ induction =>
      obtain ⟨inner, rfl, hidden⟩ := induction found
      refine ⟨'\\' :: escaped :: inner, rfl, ?_⟩
      intro unbroken braces
      obtain ⟨escapedSolid, innerSolid⟩ : escaped ≠ '\n' ∧ '\n' ∉ inner := by
        simpa [eq_comm] using unbroken
      simp [bracesThrough?, stepBraces, escapedSolid, hidden innerSolid]
  | case5 character others noQuote plain induction =>
      obtain ⟨inner, rfl, hidden⟩ := induction found
      refine ⟨character :: inner, rfl, ?_⟩
      intro unbroken braces
      obtain ⟨solid, innerSolid⟩ : character ≠ '\n' ∧ '\n' ∉ inner := by
        simpa [eq_comm] using unbroken
      simp [bracesThrough?, stepBraces, solid, noQuote, plain, hidden innerSolid]

theorem isInert_of_mark {character : Char} {token : Expression.Token}
    (mark : Expression.mark? character = some token)
    (noOpening : token ≠ .opening .curly) (noClosing : token ≠ .closing .curly) :
    IsInert character := by
  unfold Expression.mark? at mark
  split at mark
  all_goals first
    | exact absurd (Option.some.inj mark).symm noOpening
    | exact absurd (Option.some.inj mark).symm noClosing
    | exact ⟨by decide, by decide, by decide, by decide, by decide⟩
    | simp at mark

private theorem eq_opening_of_mark {character : Char}
    (mark : Expression.mark? character = some (.opening .curly)) :
    character = '\x7b' := by
  unfold Expression.mark? at mark
  split at mark <;> simp_all

private theorem eq_closing_of_mark {character : Char}
    (mark : Expression.mark? character = some (.closing .curly)) :
    character = '\x7d' := by
  unfold Expression.mark? at mark
  split at mark <;> simp_all

theorem bracesThrough?_quote {quote : Char} {text rest : List Char}
    (isQuote : Expression.isQuote quote = true)
    (found : Expression.afterLiteral quote text = some rest)
    (unbroken : '\n' ∉ text.take (text.length - rest.length)) (fresh : Bool)
    (braces : Braces) :
    bracesThrough? fresh .outside braces (quote :: text) =
      bracesThrough? false .outside braces rest := by
  obtain ⟨hidden, rfl, skip⟩ := bracesThrough?_literal isQuote found
  have hiddenUnbroken : '\n' ∉ hidden := by simpa using unbroken
  have noBreak : quote ≠ '\n' := by
    rintro rfl
    exact absurd isQuote (by decide)
  have noHash : quote ≠ '#' := by
    rintro rfl
    exact absurd isQuote (by decide)
  have noBlank : Text.isBlank quote = false := by
    have either : quote = '"' ∨ quote = '\'' := by simpa [Expression.isQuote] using isQuote
    rcases either with rfl | rfl <;> rfl
  simp only [bracesThrough?, noBreak, noHash, stepBraces, isQuote, noBlank, if_true,
    if_false, decide_false, Bool.and_false, Bool.false_eq_true, skip hiddenUnbroken]

theorem tokenBraces?_cons {token : Expression.Token} (noOpening : token ≠ .opening .curly)
    (noClosing : token ≠ .closing .curly) (braces : Braces)
    (tokens : List Expression.Token) :
    tokenBraces? braces (token :: tokens) = tokenBraces? braces tokens := by
  cases token with
  | opening bracket =>
      cases bracket with
      | curly => exact absurd rfl noOpening
      | _ => rfl
  | closing bracket =>
      cases bracket with
      | curly => exact absurd rfl noClosing
      | _ => rfl
  | _ => rfl

theorem bracesThrough?_mark {character : Char} {token : Expression.Token}
    (mark : Expression.mark? character = some token) {rest : List Char}
    {tokens : List Expression.Token}
    (later : ∀ fresh braces,
      bracesThrough? fresh .outside braces rest = tokenBraces? braces tokens)
    (fresh : Bool) (braces : Braces) :
    bracesThrough? fresh .outside braces (character :: rest) =
      tokenBraces? braces (token :: tokens) := by
  by_cases opening : token = .opening .curly
  · subst token
    obtain rfl := eq_opening_of_mark mark
    simp [bracesThrough?, stepBraces, tokenBraces?, Expression.isQuote, later]
  by_cases closing : token = .closing .curly
  · subst token
    obtain rfl := eq_closing_of_mark mark
    cases closed : braces.leave.isClosed with
    | true => simp [bracesThrough?, stepBraces, tokenBraces?, closed, Expression.isQuote]
    | false =>
        simp [bracesThrough?, stepBraces, tokenBraces?, closed, Expression.isQuote, later]
  rw [bracesThrough?_inert (isInert_of_mark mark opening closing), later,
    tokenBraces?_cons opening closing]

/-- Braces are counted alike in an expression and among its tokens, unless a
literal spans a line break. -/
theorem bracesThrough?_eq_tokenBraces? {text : List Char}
    {lexemes : List Expression.Lexeme}
    (cut : Expression.lexemes text = .ok lexemes)
    (unbroken : ∀ lexeme ∈ lexemes, lexeme.token = .literal → '\n' ∉ lexeme.text)
    (fresh : Bool) (braces : Braces) :
    bracesThrough? fresh .outside braces text =
      tokenBraces? braces (lexemes.map (·.token)) := by
  fun_induction Expression.lexemes text generalizing lexemes fresh braces with
  | case1 =>
      obtain rfl : lexemes = [] := by simpa using cut.symm
      rfl
  | case2 character rest blank induction =>
      by_cases newline : character = '\n'
      · rw [bracesThrough?, if_pos newline]
        exact induction cut unbroken true braces
      · have inert : IsInert character := by
          have other : (Text.isBlank character && character != '\n') = true := by
            simpa [blank] using newline
          exact isInert_of_class
            (fun character => Text.isBlank character && character != '\n') (by decide) other
        rw [bracesThrough?_inert inert]
        exact induction cut unbroken _ braces
  | case3 => simp at cut
  | case4 character rest noBlank quote remaining found inner =>
      rename_i induction
      obtain ⟨later, cutLater, rfl⟩ := map_eq_ok_iff.mp cut
      have innerUnbroken := unbroken _ List.mem_cons_self rfl
      have tail := induction cutLater
        (fun lexeme member => unbroken lexeme (List.mem_cons_of_mem _ member)) false braces
      rw [bracesThrough?_quote quote found (List.not_mem_of_not_mem_cons innerUnbroken), tail]
      rfl
  | case5 character rest noBlank noQuote digit run =>
      rename_i induction
      obtain ⟨later, cutLater, rfl⟩ := map_eq_ok_iff.mp cut
      have inert : IsInert character := isInert_of_class Char.isDigit (by decide) digit
      have tail := fun fresh => induction cutLater
        (fun lexeme member => unbroken lexeme (List.mem_cons_of_mem _ member)) fresh braces
      exact bracesThrough?_run Expression.isNumberCharacter (by decide) inert tail fresh
  | case6 character rest noBlank noQuote noDigit start run =>
      rename_i induction
      obtain ⟨later, cutLater, rfl⟩ := map_eq_ok_iff.mp cut
      have inert : IsInert character := isInert_of_class isIdentifierStart (by decide) start
      have tail := fun fresh => induction cutLater
        (fun lexeme member => unbroken lexeme (List.mem_cons_of_mem _ member)) fresh braces
      exact bracesThrough?_run isIdentifierCharacter (by decide) inert tail fresh
  | case7 character rest noBlank noQuote noDigit noStart operator run =>
      rename_i induction
      obtain ⟨later, cutLater, rfl⟩ := map_eq_ok_iff.mp cut
      have inert : IsInert character :=
        isInert_of_class Expression.isOperatorCharacter (by decide) operator
      have tail := fun fresh => induction cutLater
        (fun lexeme member => unbroken lexeme (List.mem_cons_of_mem _ member)) fresh braces
      exact bracesThrough?_run Expression.isOperatorCharacter (by decide) inert tail fresh
  | case8 character rest noBlank noQuote noDigit noStart noOperator token found
      induction =>
      obtain ⟨later, cutLater, rfl⟩ := map_eq_ok_iff.mp cut
      have tail := fun fresh braces => induction cutLater
        (fun lexeme member => unbroken lexeme (List.mem_cons_of_mem _ member)) fresh braces
      exact bracesThrough?_mark found tail fresh braces
  | case9 => simp at cut

/-- The nesting inside a block and inside some brackets, of which only the
curly ones count. -/
def Braces.within (stack : List Bracket) : Braces :=
  { depth := 1 + stack.count .curly, opened := true }

theorem Braces.enter_within (stack : List Bracket) :
    (Braces.within stack).enter = Braces.within (.curly :: stack) := by
  simp only [within, enter, List.count_cons_self, Braces.mk.injEq, and_true]
  omega

theorem Braces.leave_within (stack : List Bracket) :
    (Braces.within (.curly :: stack)).leave = Braces.within stack := by
  simp only [within, leave, List.count_cons_self, Braces.mk.injEq, and_true]
  omega

theorem Braces.isClosed_within (stack : List Bracket) :
    (Braces.within stack).isClosed = false := by
  have deep : ¬ ((1 : Int) + stack.count Bracket.curly ≤ 0) := by omega
  simp [within, isClosed, deep]

/-- Tokens whose brackets nest leave a block open, and as deep as it was. -/
theorem tokenBraces?_of_nested {tokens : List Expression.Token} {stack : List Bracket}
    (nested : Expression.misnested? stack tokens = none) :
    tokenBraces? (Braces.within stack) tokens = some Braces.entered := by
  fun_induction Expression.misnested? stack tokens with
  | case1 => rfl
  | case2 => simp at nested
  | case3 stack bracket rest induction =>
      cases bracket with
      | curly =>
          rw [tokenBraces?, Braces.enter_within]
          exact induction nested
      | round => exact induction nested
      | square => exact induction nested
  | case4 => simp at nested
  | case5 stack bracket rest induction =>
      cases bracket with
      | curly =>
          rw [tokenBraces?, Braces.leave_within, Braces.isClosed_within, if_neg (by simp)]
          exact induction nested
      | round => exact induction nested
      | square => exact induction nested
  | case6 => simp at nested
  | case7 stack token rest noOpening noneClosed noClosing induction =>
      cases token with
      | opening bracket => exact absurd rfl (noOpening bracket)
      | closing bracket =>
          cases stack with
          | nil => exact absurd rfl (noneClosed bracket rfl)
          | cons top stack => exact absurd rfl (noClosing top stack bracket rfl)
      | _ => exact induction nested

theorem exists_nested_of_check {parameters : List String} {expression : List Char}
    (checked : Expression.check parameters expression = .ok ()) :
    ∃ tokens, Expression.tokenize expression = .ok tokens ∧
      Expression.misnested? [] tokens = none := by
  unfold Expression.check at checked
  cases blank : (Text.trim expression).isEmpty with
  | true => simp [blank] at checked
  | false =>
      cases cut : Expression.tokenize expression with
      | error cause => simp [blank, cut] at checked
      | ok tokens =>
          refine ⟨tokens, rfl, ?_⟩
          simp only [blank, cut, Bool.false_eq_true, if_false,
            Expression.checkTokens] at checked
          split at checked
          · simp at checked
          · split at checked
            · simp at checked
            · split at checked
              · simp at checked
              · assumption

theorem unbroken_of_literals {text : List Char} {lexemes : List Expression.Lexeme}
    (cut : Expression.lexemes text = .ok lexemes)
    (unbroken : ∀ literal ∈ Expression.literals text, '\n' ∉ literal) :
    ∀ lexeme ∈ lexemes, lexeme.token = .literal → '\n' ∉ lexeme.text := by
  intro lexeme member literal
  apply unbroken
  simp only [Expression.literals, cut]
  exact List.mem_map_of_mem (List.mem_filter.mpr ⟨member, by simpa using literal⟩)

/-- The expression of a condition that passes its check fits a block unless a
literal spans a line break. -/
theorem fitsBlock_of_check {parameters : List String} {expression : List Char}
    (checked : Expression.check parameters expression = .ok ())
    (unbroken : ∀ literal ∈ Expression.literals expression, '\n' ∉ literal) :
    FitsBlock expression := by
  obtain ⟨tokens, cut, nested⟩ := exists_nested_of_check checked
  rw [Expression.tokenize_eq_lexemes] at cut
  obtain ⟨lexemes, cutLexemes, rfl⟩ := map_eq_ok_iff.mp cut
  have inline := unbroken_of_literals cutLexemes unbroken
  have counted := bracesThrough?_eq_tokenBraces? cutLexemes inline true Braces.entered
  rw [FitsBlock, ← bracesThrough?_eq_bracesBehind?, counted]
  exact tokenBraces?_of_nested nested

end Rebac.Dsl
