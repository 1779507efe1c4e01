import Rebac.Proofs.Condition.Literal
import Rebac.Proofs.Dsl.Commented
import Rebac.Proofs.Dsl.Frame

/-!
# What literals hold does not matter

A literal that does not span lines stands on one line of the block around it.  The scanner
passes over what it holds: the same lines make up the same block, with the literal filled
differently, and reading finds the same model but for that literal.
-/

namespace Rebac.Dsl

open Expression (isQuote IsLiteralBody IsPlainBody)

variable {quote : Char} {body : List Char} {hole : Hole}

/-- The outcome for a line with more characters in front. -/
def LineEnd.after (front : List Char) : LineEnd → LineEnd
  | .pending braces => .pending braces
  | .closed through rest => .closed (front ++ through) rest

theorem LineEnd.after_eq_closed_iff {front through rest : List Char} {outcome : LineEnd} :
    outcome.after front = .closed through rest ↔
      ∃ tail, outcome = .closed tail rest ∧ through = front ++ tail := by
  cases outcome with
  | pending braces => simp [LineEnd.after]
  | closed tail other => simp [LineEnd.after, eq_comm, and_comm]

theorem step_of_stepBraces {quoting after : Quoting} {braces next : Braces} {character : Char}
    (stepped : stepBraces quoting braces character = some (after, next)) :
    after = quoting.step character := by
  cases quoting with
  | outside =>
      simp only [stepBraces] at stepped
      unfold Quoting.step
      split at stepped
      · simp_all
      · split at stepped
        · simp_all
        · split at stepped
          · split at stepped
            · cases stepped
            · simp_all
          · simp_all
  | inside quote =>
      simp only [stepBraces] at stepped
      unfold Quoting.step
      split at stepped
      · simp_all
      · split at stepped <;> simp_all
  | escaped quote =>
      obtain ⟨rfl, _⟩ := Prod.mk.inj (Option.some.inj stepped)
      rfl

theorem countBraces_append {quoting : Quoting} {braces inner : Braces} {front : List Char}
    (pending : countBraces quoting braces front = .pending inner) (back : List Char) :
    countBraces quoting braces (front ++ back) =
      (countBraces (quoting.behind front) inner back).after front := by
  induction front generalizing quoting braces with
  | nil =>
      obtain rfl : braces = inner := by
        cases quoting <;> exact LineEnd.pending.inj pending
      rw [List.nil_append, Quoting.behind_nil]
      cases countBraces quoting braces back <;> rfl
  | cons character front induction =>
      obtain ⟨after, next, stepped, later⟩ := countBraces_cons_eq_pending_iff.mp pending
      rw [List.cons_append, countBraces_cons, stepped, Quoting.behind_cons,
        ← step_of_stepBraces stepped]
      simp only [induction later]
      cases countBraces (after.behind front) inner back <;> rfl

/-- Braces in a literal do not count. -/
theorem countBraces_literal (isQuote : isQuote quote = true) (isBody : IsLiteralBody quote body)
    (braces : Braces) :
    countBraces .outside braces (quote :: (body ++ [quote])) = .pending braces := by
  have inside : countBraces (.inside quote) braces (body ++ [quote]) = .pending braces := by
    clear isQuote
    induction isBody with
    | nil => simp [countBraces, LineEnd.behind]
    | plain other noBackslash _ induction =>
        simp [countBraces, other, noBackslash, induction, LineEnd.behind]
    | escaped _ induction => simp [countBraces, induction, LineEnd.behind]
  rw [countBraces, if_pos isQuote, inside]
  rfl

/-- The hole opens outside of the literals in front of it. -/
structure OpensLiteral (hole : Hole) : Prop where
  isQuote : isQuote hole.quote = true
  outside : Quoting.behind .outside hole.left = .outside

theorem OpensLiteral.widen (opens : OpensLiteral hole) (back : List Char) :
    OpensLiteral (hole.widen [] back) :=
  ⟨opens.isQuote, opens.outside⟩

theorem OpensLiteral.noFeed (opens : OpensLiteral hole) : '\n' ≠ hole.quote := by
  intro same
  have isQuote := opens.isQuote
  rw [← same] at isQuote
  cases isQuote

theorem countBraces_fill_of_pending (opens : OpensLiteral hole)
    (isBody : IsLiteralBody hole.quote body) {braces inner : Braces}
    (pending : countBraces .outside braces hole.left = .pending inner) :
    countBraces .outside braces (hole.fill body) =
      (countBraces .outside inner hole.right).after
        (hole.left ++ hole.quote :: (body ++ [hole.quote])) := by
  have literal := countBraces_literal opens.isQuote isBody inner
  have behind : Quoting.behind .outside (hole.quote :: (body ++ [hole.quote])) = .outside :=
    Quoting.behind_quoted opens.isQuote isBody []
  have split : hole.fill body =
      hole.left ++ ((hole.quote :: (body ++ [hole.quote])) ++ hole.right) := by
    simp [Hole.fill]
  rw [split, countBraces_append pending, opens.outside, countBraces_append literal, behind]
  cases countBraces .outside inner hole.right with
  | pending => rfl
  | closed through rest => simp [LineEnd.after]

theorem countBraces_fill_of_closed {braces : Braces} {through rest : List Char}
    (closed : countBraces .outside braces hole.left = .closed through rest) (body : List Char) :
    countBraces .outside braces (hole.fill body) =
      .closed through ({ hole with left := rest : Hole }.fill body) :=
  countBraces_append_of_closed closed _

theorem pending_fill (opens : OpensLiteral hole) (isBody : IsLiteralBody hole.quote body)
    {braces inner : Braces}
    (pending : countBraces .outside braces (hole.fill body) = .pending inner) {other : List Char}
    (isOther : IsLiteralBody hole.quote other) :
    countBraces .outside braces (hole.fill other) = .pending inner := by
  cases counted : countBraces .outside braces hole.left with
  | closed through rest =>
      rw [countBraces_fill_of_closed counted] at pending
      cases pending
  | pending between =>
      rw [countBraces_fill_of_pending opens isBody counted] at pending
      rw [countBraces_fill_of_pending opens isOther counted]
      cases later : countBraces .outside between hole.right with
      | closed through rest => simp [later, LineEnd.after] at pending
      | pending final => simpa [later, LineEnd.after] using pending

theorem startsComment_congr {text other : List Char} (same : text.head? = other.head?) :
    startsComment text = startsComment other := by
  cases text with
  | nil =>
      rw [List.head?_eq_none_iff.mp same.symm]
  | cons character text =>
      obtain ⟨rest, rfl⟩ := List.head?_eq_some_iff.mp same.symm
      unfold startsComment
      split <;> simp_all

theorem startsComment_trim_fill (solid : Text.isBlank hole.quote = false)
    (body other : List Char) :
    startsComment (Text.trim (hole.fill body)) =
      startsComment (Text.trim (hole.fill other)) := by
  rw [Hole.trim_fill solid, Hole.trim_fill solid]
  exact startsComment_congr (Hole.head?_fill _ body other)

theorem isBare_fill (solid : Text.isBlank hole.quote = false) (body other : List Char) :
    isBare (hole.fill body) = isBare (hole.fill other) := by
  have trimmed : ∀ inner, Text.trimStart (hole.fill inner) =
      { hole with left := Text.trimStart hole.left : Hole }.fill inner := by
    intro inner
    exact Text.trimStart_append solid _ _
  have filled : ∀ inner,
      ({ hole with left := Text.trimStart hole.left : Hole }.fill inner).isEmpty = false := by
    intro inner
    simp [Hole.fill]
  rw [isBare, isBare, trimmed, trimmed, filled, filled,
    startsComment_congr (Hole.head?_fill _ body other)]

/-- A line that closes a block does so whatever its literals hold, and the block keeps of it
what it kept. -/
theorem exists_closed_fill {braces : Braces} {line through rest : List Char}
    (opens : OpensLiteral hole) (isBody : IsLiteralBody hole.quote body)
    (closed : countBraces .outside braces line = .closed through rest)
    (kept : closingLine through rest = hole.fill body) :
    ∃ back, line = (hole.widen [] back).fill body ∧
      ∀ other, IsLiteralBody hole.quote other → ∃ through rest,
        countBraces .outside braces ((hole.widen [] back).fill other) = .closed through rest ∧
          closingLine through rest = hole.fill other := by
  have solid := Expression.not_isBlank_of_isQuote opens.isQuote
  have split := append_of_countBraces closed
  have literal : ∀ inner : List Char,
      hole.left ++ hole.quote :: (inner ++ [hole.quote]) ++ hole.right = hole.fill inner := by
    intro inner
    simp [Hole.fill]
  cases bare : isBare rest with
  | true =>
      rw [closingLine_of_isBare bare] at kept
      subst kept
      have shape : line = (hole.widen [] rest).fill body := by
        rw [split, Hole.fill_widen]
        rfl
      refine ⟨rest, shape, fun other isOther => ⟨hole.fill other, rest, ?_,
        closingLine_of_isBare bare _⟩⟩
      rw [shape] at closed
      cases counted : countBraces .outside braces hole.left with
      | closed through behind =>
          -- The brace would stand in front of a literal that the block keeps.
          rw [countBraces_fill_of_closed (by exact counted)] at closed
          obtain ⟨rfl, _⟩ := LineEnd.closed.inj closed
          have length := congrArg List.length (append_of_countBraces counted)
          simp only [Hole.fill, List.length_append, List.length_cons] at length
          omega
      | pending inner =>
          rw [countBraces_fill_of_pending (opens.widen rest) isBody (by exact counted)] at closed
          obtain ⟨tail, later, same⟩ := LineEnd.after_eq_closed_iff.mp closed
          obtain rfl := List.append_cancel_left ((literal body).trans same)
          rw [countBraces_fill_of_pending (opens.widen rest) isOther (by exact counted), later]
          exact congrArg (LineEnd.closed · rest) (literal other)
  | false =>
      rw [closingLine_of_not_isBare bare, ← split] at kept
      subst kept
      have narrow : hole.widen [] [] = hole := by simp [Hole.widen]
      refine ⟨[], by rw [narrow], fun other isOther => ?_⟩
      rw [narrow]
      cases counted : countBraces .outside braces hole.left with
      | closed front behind =>
          rw [countBraces_fill_of_closed counted] at closed
          obtain ⟨rfl, rfl⟩ := LineEnd.closed.inj closed
          refine ⟨_, _, countBraces_fill_of_closed counted other, ?_⟩
          have otherBare := bare
          rw [isBare_fill (by exact solid) body other] at otherBare
          rw [closingLine_of_not_isBare otherBare]
          simp [Hole.fill, append_of_countBraces counted]
      | pending inner =>
          rw [countBraces_fill_of_pending opens isBody counted] at closed
          obtain ⟨tail, later, same⟩ := LineEnd.after_eq_closed_iff.mp closed
          refine ⟨_, rest, by rw [countBraces_fill_of_pending opens isOther counted, later]; rfl,
            ?_⟩
          rw [closingLine_of_not_isBare bare, List.append_assoc, ← append_of_countBraces later]
          exact literal other

theorem Closes.exists_suffix {block : OpenBlock} {own : List (List Char)}
    {statement : Statement} (closes : Closes block own statement) :
    ∃ suffix, statement.text = block.reversed.reverse ++ '\n' :: suffix ∧
      ∀ reversed, Closes { block with reversed } own
        { statement with text := reversed.reverse ++ '\n' :: suffix } := by
  induction closes with
  | comment comment closes induction =>
      obtain ⟨suffix, text, exchange⟩ := induction
      exact ⟨suffix, text, fun reversed => .comment comment (exchange reversed)⟩
  | inner noComment stays closes induction =>
      rename_i block line own statement braces
      obtain ⟨suffix, text, exchange⟩ := induction
      refine ⟨line ++ '\n' :: suffix, ?_, fun reversed => .inner noComment stays ?_⟩
      · rw [text]
        simp [OpenBlock.extend, blockText]
      · have rest := exchange ((blockText [line]).reverse ++ reversed)
        have same : ((blockText [line]).reverse ++ reversed).reverse ++ '\n' :: suffix =
            reversed.reverse ++ '\n' :: (line ++ '\n' :: suffix) := by
          simp [blockText]
        rwa [same] at rest
  | closing noComment closed =>
      exact ⟨_, rfl, fun reversed => .closing noComment closed⟩

theorem Closes.exists_fill {block : OpenBlock} {own : List (List Char)}
    {statement : Statement} (closes : Closes block own statement)
    (unbroken : ∀ line ∈ own, '\n' ∉ line) {front : List Char} (opens : OpensLiteral hole)
    (isBody : IsLiteralBody hole.quote body)
    (inline : '\n' ∉ hole.left ++ hole.quote :: (body ++ [hole.quote]))
    (text : statement.text = block.reversed.reverse ++ (front ++ '\n' :: hole.fill body)) :
    ∃ before right after, own = before ++ { hole with right : Hole }.fill body :: after ∧
      ∀ other, IsLiteralBody hole.quote other →
        Closes block (before ++ { hole with right : Hole }.fill other :: after)
          { statement with
            text := block.reversed.reverse ++ (front ++ '\n' :: hole.fill other) } := by
  have solid := Expression.not_isBlank_of_isQuote opens.isQuote
  induction closes generalizing front with
  | comment comment closes induction =>
      rename_i block line own statement
      have others := fun other member => unbroken other (List.mem_cons_of_mem line member)
      obtain ⟨before, right, after, rfl, exchange⟩ := induction others text
      exact ⟨line :: before, right, after, rfl, fun other isOther =>
        .comment comment (exchange other isOther)⟩
  | inner noComment stays closes induction =>
      rename_i block line own statement braces
      have others := fun other member => unbroken other (List.mem_cons_of_mem line member)
      have thisLine : '\n' ∉ line := unbroken line List.mem_cons_self
      obtain ⟨suffix, behind, exchange⟩ := closes.exists_suffix
      have extended : (block.extend [line] braces).reversed.reverse =
          block.reversed.reverse ++ '\n' :: line := by
        simp [OpenBlock.extend, blockText]
      rw [behind, extended, List.append_assoc, List.append_cancel_left_eq, List.cons_append]
        at text
      -- Either the literal stands on this line, or a line break in front of it ends this line.
      cases front with
      | nil =>
          obtain ⟨right, rfl, refill⟩ := Hole.exists_first_fill inline (List.cons.inj text).2.symm
          refine ⟨[], right, own, rfl, fun other isOther => ?_⟩
          have opensLine : OpensLiteral { hole with right : Hole } :=
            ⟨opens.isQuote, opens.outside⟩
          have rest := exchange
            ((blockText [{ hole with right : Hole }.fill other]).reverse ++ block.reversed)
          have same : ((blockText [{ hole with right : Hole }.fill other]).reverse ++
              block.reversed).reverse ++ '\n' :: suffix =
                block.reversed.reverse ++ ([] ++ '\n' :: hole.fill other) := by
            simp [blockText, refill]
          rw [same] at rest
          refine .inner ?_ (pending_fill opensLine isBody stays isOther) rest
          rw [← startsComment_trim_fill (by exact solid) body other]
          exact noComment
      | cons first front =>
          obtain ⟨rfl, cut⟩ := List.cons.inj text
          obtain ⟨inner, rfl, shape⟩ := Text.exists_of_append_break thisLine cut
          have textBehind : statement.text = (block.extend [line] braces).reversed.reverse ++
              (inner ++ '\n' :: hole.fill body) := by
            rw [behind, shape]
          obtain ⟨before, right, after, rfl, exchangeInner⟩ := induction others textBehind
          refine ⟨line :: before, right, after, rfl, fun other isOther =>
            .inner noComment stays ?_⟩
          have rest := exchangeInner other isOther
          rw [extended] at rest
          simpa using rest
  | closing noComment closed =>
      rename_i block line through rest
      have thisLine : '\n' ∉ line := unbroken line List.mem_cons_self
      rw [List.append_cancel_left_eq] at text
      cases front with
      | nil =>
          rw [List.nil_append] at text
          obtain ⟨back, rfl, exchange⟩ :=
            exists_closed_fill opens isBody closed (List.cons.inj text).2
          refine ⟨[], hole.right ++ back, [], rfl, fun other isOther => ?_⟩
          obtain ⟨through, rest, otherClosed, kept⟩ := exchange other isOther
          rw [List.nil_append, List.nil_append, ← kept]
          refine .closing ?_ otherClosed
          rw [← startsComment_trim_fill (by exact solid) body other]
          exact noComment
      | cons first front =>
          obtain ⟨rfl, cut⟩ := List.cons.inj text
          obtain ⟨dropped, whole⟩ := exists_closingLine through rest
          have inLine : '\n' ∈ line := by
            rw [append_of_countBraces closed, whole, cut]
            simp
          exact absurd inLine thisLine

theorem Closes.exists_later_fill {block : OpenBlock} {own : List (List Char)}
    {statement : Statement} (closes : Closes block own statement)
    (unbroken : ∀ line ∈ own, '\n' ∉ line) (opens : OpensLiteral hole)
    (isBody : IsLiteralBody hole.quote body) (inline : '\n' ∉ body)
    (level : Quoting.IsLevel hole.left) {front start : List Char}
    (shape : hole.left = front ++ ['\n'] ++ start) (noBreak : '\n' ∉ start)
    (firstUnbroken : '\n' ∉ block.reversed.reverse) (text : statement.text = hole.fill body) :
    ∃ (before : List (List Char)) (place : Hole) (after : List (List Char)),
      place.quote = hole.quote ∧ own = before ++ place.fill body :: after ∧
        ∀ other, IsLiteralBody hole.quote other →
          Closes block (before ++ place.fill other :: after)
            { statement with text := hole.fill other } := by
  have refill : ∀ inner, hole.fill inner =
      front ++ '\n' :: { hole with left := start : Hole }.fill inner := by
    intro inner
    simp [Hole.fill, shape]
  obtain ⟨suffix, behind, _⟩ := closes.exists_suffix
  have cut : block.reversed.reverse ++ '\n' :: suffix =
      front ++ '\n' :: { hole with left := start : Hole }.fill body := by
    rw [← behind, text, refill]
  obtain ⟨inner, rfl, _⟩ := Text.exists_of_append_break firstUnbroken cut
  have outside : Quoting.behind .outside start = .outside := by
    have before := level (block.reversed.reverse ++ inner) start (by simp [shape])
    have whole := opens.outside
    rw [shape, List.append_assoc, List.singleton_append, Quoting.behind_append, before] at whole
    exact whole
  have opensStart : OpensLiteral { hole with left := start : Hole } := ⟨opens.isQuote, outside⟩
  have inlineStart : '\n' ∉ start ++ hole.quote :: (body ++ [hole.quote]) := by
    simp [noBreak, opens.noFeed, inline]
  rw [refill, List.append_assoc] at text
  obtain ⟨before, right, after, rfl, exchange⟩ :=
    closes.exists_fill unbroken opensStart isBody inlineStart text
  refine ⟨before, { hole with left := start, right }, after, rfl, rfl, fun other isOther => ?_⟩
  rw [refill, List.append_assoc]
  exact exchange other isOther

theorem startsCondition_append_quote (isQuote : isQuote quote = true)
    (text rest other : List Char) :
    startsCondition (text ++ quote :: rest) = startsCondition (text ++ quote :: other) := by
  have keep : ∀ rest other : List Char, startsCondition (text ++ quote :: rest) = true →
      startsCondition (text ++ quote :: other) = true := by
    intro rest other starts
    obtain ⟨later, split, ends⟩ := startsCondition_iff.mp starts
    have noQuote : "condition".toList.all (!Expression.isQuote ·) = true := by decide
    rcases List.append_eq_append_iff.mp split with ⟨inner, keyword, behind⟩ |
      ⟨inner, rfl, rfl⟩
    · cases inner with
      | nil =>
          obtain rfl : quote :: rest = later := behind
          rcases ends quote rfl with blank | rfl
          · rw [Expression.not_isBlank_of_isQuote isQuote] at blank
            cases blank
          · cases isQuote
      | cons character inner =>
          obtain ⟨rfl, _⟩ := List.cons.inj behind
          rw [keyword] at noQuote
          simp [isQuote] at noQuote
    · refine startsCondition_iff.mpr ⟨inner ++ quote :: other, List.append_assoc _ _ _, ?_⟩
      intro character first
      refine ends character ?_
      cases inner <;> exact first
  rw [Bool.eq_iff_iff]
  exact ⟨keep rest other, keep other rest⟩

theorem startsCondition_fill (isQuote : isQuote hole.quote = true) (body other : List Char) :
    startsCondition (hole.fill body) = startsCondition (hole.fill other) :=
  startsCondition_append_quote isQuote hole.left _ _

theorem exists_dropTrailingComment (line : List Char) :
    ∃ dropped, line = dropTrailingComment line ++ dropped := by
  obtain ⟨blanks, _, split⟩ := Text.exists_trimEnd (cutComment true line)
  by_cases kept : cutComment true line = line
  · refine ⟨blanks, ?_⟩
    rw [dropTrailingComment, ← split, kept]
  · obtain ⟨rest, whole⟩ := exists_of_cutComment_ne kept
    refine ⟨blanks ++ '#' :: rest, ?_⟩
    rw [dropTrailingComment, ← List.append_assoc, ← split, ← whole]

theorem isSolid_fill (isQuote : isQuote hole.quote = true)
    (solid : IsSolid (hole.fill body)) (other : List Char) : IsSolid (hole.fill other) := by
  have noBlank := Expression.not_isBlank_of_isQuote isQuote
  refine ⟨?_, by rw [startsComment_trim_fill noBlank other body]; exact solid.2⟩
  rw [Hole.trim_fill noBlank]
  simp [Hole.fill]

theorem exists_start_fill {line : List Char} (solid : IsSolid line)
    (starts : startsCondition (Text.trim line) = true)
    (trimmed : Text.trim line = hole.fill body) (isQuote : isQuote hole.quote = true) :
    ∃ place : Hole, place.quote = hole.quote ∧ line = place.fill body ∧
      ∀ other, IsSolid (place.fill other) ∧
        startsCondition (Text.trim (place.fill other)) = true ∧
          Text.trim (place.fill other) = hole.fill other := by
  obtain ⟨before, after, _, rfl, trimFill⟩ := Hole.exists_trim_fill trimmed
  have widened : Expression.isQuote (hole.widen before after).quote = true := isQuote
  refine ⟨hole.widen before after, rfl, rfl, fun other =>
    ⟨isSolid_fill widened solid other, ?_, trimFill other⟩⟩
  rw [trimFill, ← startsCondition_fill isQuote body, ← trimmed]
  exact starts

/-- A literal in the text of a condition stands on one of the lines of the statement. -/
theorem Spans.exists_fill {number : Nat} {own : List (List Char)} {statement : Statement}
    (spans : Spans number own statement) (unbroken : ∀ line ∈ own, '\n' ∉ line)
    (isCondition : startsCondition statement.text = true) (opens : OpensLiteral hole)
    (isBody : IsLiteralBody hole.quote body) (inline : '\n' ∉ body)
    (level : Quoting.IsLevel hole.left) (text : statement.text = hole.fill body) :
    ∃ (before : List (List Char)) (place : Hole) (after : List (List Char)),
      place.quote = hole.quote ∧ own = before ++ place.fill body :: after ∧
        ∀ other, IsLiteralBody hole.quote other →
          Spans number (before ++ place.fill other :: after)
            { statement with text := hole.fill other } := by
  cases spans with
  | plain solid noCondition =>
      -- The comment that a single line loses stands behind the quotes, not in the keyword.
      rename_i line
      obtain ⟨dropped, split⟩ := exists_dropTrailingComment (Text.trim line)
      have longer : Text.trim line = hole.left ++
          hole.quote :: (body ++ hole.quote :: (hole.right ++ dropped)) := by
        rw [split, show dropTrailingComment (Text.trim line) = hole.fill body from text]
        simp [Hole.fill]
      rw [text, Hole.fill, startsCondition_append_quote opens.isQuote _ _
        (body ++ hole.quote :: (hole.right ++ dropped)), ← longer, noCondition] at isCondition
      cases isCondition
  | closed solid starts closed =>
      rename_i line through rest
      obtain ⟨back, trimmed, exchange⟩ := exists_closed_fill opens isBody closed text
      obtain ⟨place, sameQuote, rfl, first⟩ :=
        exists_start_fill solid starts trimmed opens.isQuote
      refine ⟨[], place, [], sameQuote, rfl, fun other isOther => ?_⟩
      obtain ⟨through, rest, otherClosed, kept⟩ := exchange other isOther
      obtain ⟨otherSolid, otherStarts, otherTrimmed⟩ := first other
      rw [List.nil_append, ← kept]
      exact .closed otherSolid otherStarts (otherTrimmed ▸ otherClosed)
  | block solid starts opened closes =>
      rename_i line own braces
      obtain ⟨suffix, behind, exchange⟩ := closes.exists_suffix
      simp only [List.reverse_reverse] at behind
      -- The last line break in front of the literal, if any, starts the line that it is on.
      obtain ⟨front, start, shape, complete, noBreak⟩ := Text.exists_isComplete hole.left
      rcases complete with rfl | ⟨front, rfl⟩
      · have inLeft : '\n' ∉ hole.left := by
          rw [shape]
          exact noBreak
        have inlineLine : '\n' ∉ hole.left ++ hole.quote :: (body ++ [hole.quote]) := by
          simp [inLeft, opens.noFeed, inline]
        obtain ⟨right, trimmed, refill⟩ :=
          Hole.exists_first_fill inlineLine (text.symm.trans behind)
        obtain ⟨place, sameQuote, rfl, first⟩ :=
          exists_start_fill solid starts trimmed opens.isQuote
        refine ⟨[], place, own, sameQuote, rfl, fun other isOther => ?_⟩
        obtain ⟨otherSolid, otherStarts, otherTrimmed⟩ := first other
        have rest := exchange (Text.trim (place.fill other)).reverse
        have same : (Text.trim (place.fill other)).reverse.reverse ++ '\n' :: suffix =
            hole.fill other := by
          rw [List.reverse_reverse, otherTrimmed, refill]
        rw [same] at rest
        have opensLine : OpensLiteral { hole with right : Hole } :=
          ⟨opens.isQuote, opens.outside⟩
        refine .block otherSolid otherStarts ?_ rest
        rw [otherTrimmed]
        rw [trimmed] at opened
        exact pending_fill opensLine isBody opened isOther
      · have others := fun other member => unbroken other (List.mem_cons_of_mem line member)
        have firstUnbroken : '\n' ∉ Text.trim line := by
          obtain ⟨start, finish, _, _, split⟩ := Text.exists_surroundings line
          intro member
          refine unbroken line List.mem_cons_self ?_
          rw [split]
          simp [member]
        obtain ⟨before, place, after, sameQuote, rfl, exchangeLater⟩ :=
          closes.exists_later_fill others opens isBody inline level shape noBreak
            (by simpa using firstUnbroken) text
        exact ⟨line :: before, place, after, sameQuote, rfl, fun other isOther =>
          .block solid starts opened (exchangeLater other isOther)⟩

theorem exists_scan_fill {text : List Char} {before after : List Statement}
    {statement : Statement} (scanned : scan text = .ok (before ++ statement :: after))
    (isCondition : startsCondition statement.text = true) (opens : OpensLiteral hole)
    (isBody : IsLiteralBody hole.quote body) (inline : '\n' ∉ body)
    (level : Quoting.IsLevel hole.left) (filled : statement.text = hole.fill body) :
    ∃ place : Hole, place.quote = hole.quote ∧ text = place.fill body ∧
      ∀ other, IsPlainBody hole.quote other →
        scan (place.fill other) =
          .ok (before ++ { statement with text := hole.fill other } :: after) := by
  obtain ⟨front, own, back, split, earlier, spans, later⟩ :=
    (scanFrom_eq_ok_iff.mp scanned).exists_spans
  have unbroken : ∀ line ∈ own, '\n' ∉ line := by
    intro line member
    have inText : line ∈ Text.lines text := by
      rw [split]
      simp [member]
    exact Text.not_mem_of_mem_lines inText
  obtain ⟨above, linePlace, below, sameQuote, rfl, exchange⟩ :=
    spans.exists_fill unbroken isCondition opens isBody inline level filled
  have whole : Text.lines text =
      (front ++ above) ++ linePlace.fill body :: (below ++ back) := by
    rw [split]
    simp
  obtain ⟨place, samePlace, rfl, exchangeLines⟩ := Text.exists_lines_fill whole
  refine ⟨place, samePlace.trans sameQuote, rfl, fun other plain => ?_⟩
  rw [scan, exchangeLines other plain.unbroken, scanFrom_eq_ok_iff]
  have otherSpans := exchange other plain.isLiteralBody
  have sameLength : (above ++ linePlace.fill other :: below).length =
      (above ++ linePlace.fill body :: below).length := by simp
  rw [← sameLength] at later
  have scans := earlier.append_iff.mpr ⟨_, .statement otherSpans later, rfl⟩
  simpa using scans

/-- Where the literals of an expression do not span lines, neither does the body of one of
them, and no literal in front of it holds a line break. -/
theorem isLevel_of_holdsLiteral (holds : hole.HoldsLiteral body)
    (inline : ∀ literal ∈ Expression.literals (hole.fill body), '\n' ∉ literal) :
    '\n' ∉ body ∧ Quoting.IsLevel hole.left := by
  obtain ⟨_, front, back, cutLeft, cutWhole⟩ := holds
  have unbroken := unbroken_of_literals cutWhole inline
  constructor
  · have literal := unbroken _ (List.mem_append_right _ List.mem_cons_self) rfl
    simp only [List.mem_cons, List.mem_append, not_or] at literal
    exact literal.2.1
  · refine Quoting.isLevel_of_cuts (Expression.cuts_of_lexemes cutLeft) ?_
    intro lexeme member
    exact unbroken lexeme (List.mem_append_left _ member)

/-- What a string literal holds does not influence reading.  For every condition that is read
and every literal of its expression there is a place in the text where any other body of the
literal changes that literal in that condition, and nothing else. -/
theorem read_fill {schemaVersion : String} {text : List Char} {model : Model}
    (parsed : read schemaVersion text = .ok model) {condition : Condition}
    {earlier later : List Condition}
    (listed : model.conditions = earlier ++ condition :: later)
    (inline : ∀ literal ∈ Expression.literals condition.expression.toList, '\n' ∉ literal)
    (expression : condition.expression.toList = hole.fill body)
    (holds : hole.HoldsLiteral body) :
    ∃ place : Hole, place.quote = hole.quote ∧ text = place.fill body ∧
      ∀ other, IsPlainBody hole.quote other →
        read schemaVersion (place.fill other) =
          .ok { model with
            conditions := earlier ++
              { condition with expression := String.ofList (hole.fill other) } :: later } := by
  obtain ⟨final, ⟨statements, scanned, applied⟩, rfl⟩ := read_eq_ok_iff.mp parsed
  rw [Draft.applyAll_eq_ok_iff] at applied
  obtain ⟨textsBefore, own, textsAfter, split, isCondition, found, exchange⟩ :=
    applied.exists_condition listed
  obtain ⟨before, rest, rfl, rfl, behind⟩ := List.map_eq_append_iff.mp split
  obtain ⟨statement, after, rfl, rfl, rfl⟩ := List.map_eq_cons_iff.mp behind
  obtain ⟨head, remark, filled, noQuote, exchangeText⟩ :=
    Condition.exists_fill_of_ofText found expression holds
  rw [expression] at inline
  obtain ⟨inlineBody, level⟩ := isLevel_of_holdsLiteral holds inline
  obtain ⟨isBody, _, _, cutsLeft, _⟩ := holds.exists_cuts
  have opens : OpensLiteral (hole.widen head remark) := by
    refine ⟨holds.isQuote, ?_⟩
    have outside : Quoting.behind .outside head = .outside := Quoting.behind_outside noQuote
    rw [show (hole.widen head remark).left = head ++ hole.left from rfl,
      Quoting.behind_append, outside]
    exact Quoting.behind_of_isClean cutsLeft.isClean
  obtain ⟨place, sameQuote, rfl, exchangeScan⟩ :=
    exists_scan_fill scanned isCondition opens isBody inlineBody (.append noQuote level) filled
  refine ⟨place, sameQuote, rfl, fun other plain => ?_⟩
  have starts : startsCondition ((hole.widen head remark).fill other) = true := by
    rw [← startsCondition_fill (by exact holds.isQuote) body other, ← filled]
    exact isCondition
  have takes := exchange starts (exchangeText other plain.isLiteralBody) rfl
  refine read_eq_ok_iff.mpr ⟨final.declaring (earlier ++
    { condition with expression := String.ofList (hole.fill other) } :: later)
      final.conditionNames, ⟨_, exchangeScan other plain, ?_⟩, rfl⟩
  rw [Draft.applyAll_eq_ok_iff, List.map_append, List.map_cons]
  exact takes

/-- A condition with a literal in front of the last line of its block. -/
def regionText : List Char :=
  "type user\ncondition c(a: string) \x7b\n  a != '' &&\n  a == 'eu'\n\x7d # it's".toList

/-- The place of that literal in the expression of the condition. -/
def regionHole : Hole where
  left := "a != '' &&\n  a == ".toList
  quote := '\''
  right := []

def regionCondition (region : List Char) : Condition where
  name := "c"
  parameters := [{ name := "a", type := .string }]
  expression := String.ofList (regionHole.fill region)

/-- The model of the text, with a body for the literal. -/
def regionModel (region : List Char) : Model where
  schemaVersion := "1.1"
  types := [{ name := "user", relations := [] }]
  conditions := [regionCondition region]

theorem read_fill_region :
    read "1.1" regionText = .ok (regionModel "eu".toList) ∧
      ∃ place : Hole, place.quote = '\'' ∧ regionText = place.fill "eu".toList ∧
        read "1.1" (place.fill "\x7d) # ( \x7b \" && b".toList) =
          .ok (regionModel "\x7d) # ( \x7b \" && b".toList) := by
  have parsed : read "1.1" regionText = .ok (regionModel "eu".toList) := by decide +kernel
  have inFront : Expression.lexemes regionHole.left =
      .ok [{ token := .name ['a'], text := ['a'] },
        { token := .operator ['!', '='], text := ['!', '='] },
        { token := .literal, text := ['\'', '\''] },
        { token := .operator ['&', '&'], text := ['&', '&'] },
        { token := .name ['a'], text := ['a'] },
        { token := .operator ['=', '='], text := ['=', '='] }] := by decide +kernel
  have holds : regionHole.HoldsLiteral "eu".toList :=
    ⟨by decide, _, [], inFront, by decide +kernel⟩
  have listed : (regionModel "eu".toList).conditions =
      [] ++ regionCondition "eu".toList :: [] := rfl
  have inline : ∀ literal ∈ Expression.literals
      (regionCondition "eu".toList).expression.toList, '\n' ∉ literal := by decide +kernel
  have expression : (regionCondition "eu".toList).expression.toList =
      regionHole.fill "eu".toList := String.toList_ofList
  obtain ⟨place, sameQuote, split, exchange⟩ := read_fill parsed listed inline expression holds
  exact ⟨parsed, place, sameQuote, split, exchange _ (by decide)⟩

end Rebac.Dsl
