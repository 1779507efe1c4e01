import Rebac.Proofs.Condition.Language
import Rebac.Proofs.Dsl.Block
import Rebac.Proofs.Text.Breaks

/-!
# Blocks in any layout

Blanks and line breaks may stand on both sides of the expression of a block.  If no
string literal of the expression spans a line break, the scanner finds one statement that
ends with the last brace and holds the whole expression; of the line that the block
starts on, the blanks at its end are dropped.
-/

namespace Rebac.Dsl

theorem bracesBehind?_append {braces : Braces} (front back : List (List Char)) :
    bracesBehind? braces (front ++ back) =
      (bracesBehind? braces front).bind (bracesBehind? · back) := by
  induction front generalizing braces with
  | nil => rfl
  | cons line front induction =>
      rw [List.cons_append, bracesBehind?, bracesBehind?]
      split
      · rfl
      · split
        · exact induction
        · rfl

theorem bracesBehind?_cons_eq_some_iff {braces behind : Braces} {line : List Char}
    {lines : List (List Char)} :
    bracesBehind? braces (line :: lines) = some behind ↔
      startsComment (Text.trim line) = false ∧
        ∃ next, countBraces .outside braces line = .pending next ∧
          bracesBehind? next lines = some behind := by
  rw [bracesBehind?]
  cases startsComment (Text.trim line) with
  | true => simp
  | false =>
      cases countBraces .outside braces line with
      | pending next => simp
      | closed through rest => simp

theorem closes_of_bracesBehind? {block : OpenBlock} {inner : List (List Char)}
    {line through rest : List Char} {braces : Braces}
    (behind : bracesBehind? block.braces inner = some braces)
    (noComment : startsComment (Text.trim line) = false)
    (closed : countBraces .outside braces line = .closed through rest) :
    Closes block (inner ++ [line])
      { line := block.line
        text := block.reversed.reverse ++ blockText inner ++
          '\n' :: closingLine through rest } := by
  induction inner generalizing block with
  | nil =>
      obtain rfl : block.braces = braces := by simpa [bracesBehind?] using behind
      simpa [blockText] using Closes.closing noComment closed
  | cons first inner induction =>
      obtain ⟨firstNoComment, next, stays, later⟩ := bracesBehind?_cons_eq_some_iff.mp behind
      have inside : bracesBehind? (block.extend [first] next).braces inner = some braces :=
        later
      simpa [OpenBlock.extend, blockText] using
        Closes.inner firstNoComment stays (induction inside)

theorem not_comment_append {line : List Char} {last : Char}
    (noComment : startsComment (Text.trim line) = false) (noHash : last ≠ '#') :
    startsComment (Text.trim (line ++ [last])) = false := by
  induction line with
  | nil =>
      rw [List.nil_append, startsComment_trim_cons]
      split
      · rfl
      · simpa using noHash
  | cons character line induction =>
      rw [startsComment_trim_cons] at noComment
      rw [List.cons_append, startsComment_trim_cons]
      split
      · rename_i blank
        rw [if_pos blank] at noComment
        exact induction noComment
      · rename_i solid
        rwa [if_neg solid] at noComment

theorem behind_eq_pending_iff {character : Char} {outcome : LineEnd} {braces : Braces} :
    outcome.behind character = .pending braces ↔ outcome = .pending braces := by
  cases outcome with
  | pending other => rfl
  | closed through rest => simp [LineEnd.behind]

theorem countBraces_cons_eq_pending_iff {quoting : Quoting} {braces behind : Braces}
    {character : Char} {line : List Char} :
    countBraces quoting braces (character :: line) = .pending behind ↔
      ∃ after next, stepBraces quoting braces character = some (after, next) ∧
        countBraces after next line = .pending behind := by
  rw [countBraces_cons]
  cases stepBraces quoting braces character with
  | none => simp
  | some step =>
      obtain ⟨after, next⟩ := step
      simp [behind_eq_pending_iff]

theorem eq_nil_of_countBraces {quoting : Quoting} {braces behind : Braces}
    {line through rest : List Char} {last : Char}
    (pending : countBraces quoting braces line = .pending behind)
    (closed : countBraces quoting braces (line ++ [last]) = .closed through rest) :
    rest = [] := by
  induction line generalizing quoting braces through with
  | nil =>
      rw [List.nil_append, countBraces_cons] at closed
      split at closed
      · rename_i after next _
        cases after <;> cases closed
      · exact (LineEnd.closed.inj closed).2.symm
  | cons character line induction =>
      obtain ⟨after, next, step, pendingLater⟩ := countBraces_cons_eq_pending_iff.mp pending
      rw [List.cons_append, countBraces_cons, step] at closed
      cases later : countBraces after next (line ++ [last]) with
      | pending other => simp [later, LineEnd.behind] at closed
      | closed front back =>
          obtain ⟨_, rfl⟩ : character :: front = through ∧ back = rest := by
            simpa [later, LineEnd.behind] using closed
          exact induction pendingLater later

theorem stepBraces_blank {character : Char} (blank : Text.isBlank character = true)
    (quoting : Quoting) (braces : Braces) :
    ∃ after, stepBraces quoting braces character = some (after, braces) := by
  have noQuote : Expression.isQuote character = false := by
    cases quote : Expression.isQuote character with
    | false => rfl
    | true =>
        rw [Expression.not_isBlank_of_isQuote quote] at blank
        cases blank
  have noOpening : character ≠ '\x7b' := by
    intro same
    subst same
    cases blank
  have noClosing : character ≠ '\x7d' := by
    intro same
    subst same
    cases blank
  cases quoting with
  | outside => exact ⟨.outside, by simp [stepBraces, noQuote, noOpening, noClosing]⟩
  | escaped quote => exact ⟨.inside quote, rfl⟩
  | inside quote =>
      simp only [stepBraces]
      split
      · exact ⟨_, rfl⟩
      · split
        · exact ⟨_, rfl⟩
        · exact ⟨_, rfl⟩

theorem countBraces_blanks {blanks : List Char} (blank : Text.AllBlank blanks)
    (quoting : Quoting) (braces : Braces) :
    countBraces quoting braces blanks = .pending braces := by
  induction blanks generalizing quoting with
  | nil => cases quoting <;> rfl
  | cons character blanks induction =>
      obtain ⟨after, step⟩ := stepBraces_blank (blank character List.mem_cons_self) quoting braces
      have later := induction blank.tail after
      exact countBraces_cons_eq_pending_iff.mpr ⟨after, braces, step, later⟩

theorem countBraces_of_append_blank {quoting : Quoting} {braces behind : Braces}
    {line blanks : List Char} (blank : Text.AllBlank blanks)
    (pending : countBraces quoting braces (line ++ blanks) = .pending behind) :
    countBraces quoting braces line = .pending behind := by
  induction line generalizing quoting braces with
  | nil =>
      rw [List.nil_append, countBraces_blanks blank] at pending
      rw [countBraces_blanks Text.allBlank_nil, pending]
  | cons character line induction =>
      obtain ⟨after, next, step, later⟩ := countBraces_cons_eq_pending_iff.mp pending
      exact countBraces_cons_eq_pending_iff.mpr ⟨after, next, step, induction later⟩

/-- A text whose first line ends without blanks. -/
def trimFirstLine (text : List Char) : List Char :=
  Text.trimEnd (text.takeWhile (· ≠ '\n')) ++ text.dropWhile (· ≠ '\n')

theorem trimFirstLine_append {line rest : List Char} (unbroken : '\n' ∉ line)
    (ends : ∀ character, rest.head? = some character → character = '\n') :
    trimFirstLine (line ++ rest) = Text.trimEnd line ++ rest := by
  have longest : Expression.IsLongest (· ≠ '\n') line rest := by
    constructor
    · intro character member
      exact decide_eq_true fun same => unbroken (same ▸ member)
    · intro character first
      simpa using ends character first
  obtain ⟨taken, dropped⟩ := longest.span
  rw [trimFirstLine, taken, dropped]

theorem trimFirstLine_append_break {line : List Char} (unbroken : '\n' ∉ line)
    (rest : List Char) :
    trimFirstLine (line ++ '\n' :: rest) = Text.trimEnd line ++ '\n' :: rest :=
  trimFirstLine_append unbroken (by simp)

theorem trimFirstLine_of_not_mem {line : List Char} (unbroken : '\n' ∉ line) :
    trimFirstLine line = Text.trimEnd line := by
  have nothing : ∀ character, [].head? = some character → character = '\n' := by simp
  have whole := trimFirstLine_append unbroken nothing
  rwa [List.append_nil, List.append_nil] at whole

theorem trimFirstLine_of_splitOn {text line : List Char} {lines : List (List Char)}
    (split : text.splitOn '\n' = line :: lines) :
    trimFirstLine text = Text.trimEnd line ++ blockText lines := by
  have unbroken : '\n' ∉ line := Text.not_mem_of_mem_splitOn (split ▸ List.mem_cons_self)
  have whole := Text.flatMap_splitOn '\n' text
  rw [split, List.flatMap_cons, List.cons_append] at whole
  obtain rfl := (List.cons.inj whole).2
  cases lines with
  | nil => simp [trimFirstLine_of_not_mem unbroken, blockText]
  | cons next lines => exact trimFirstLine_append_break unbroken _

theorem closes_last {braces behind : Braces} {line : List Char}
    (stays : bracesBehind? braces [line] = some behind)
    (ends : bracesBehind? braces [line ++ ['\x7d']] = none) :
    startsComment (Text.trim (line ++ ['\x7d'])) = false ∧
      countBraces .outside braces (line ++ ['\x7d']) = .closed (line ++ ['\x7d']) [] := by
  obtain ⟨noComment, next, pending, _⟩ := bracesBehind?_cons_eq_some_iff.mp stays
  have noCommentLast := not_comment_append noComment (by decide : '\x7d' ≠ '#')
  refine ⟨noCommentLast, ?_⟩
  cases counted : countBraces .outside braces (line ++ ['\x7d']) with
  | pending other => simp [bracesBehind?, noCommentLast, counted] at ends
  | closed through rest =>
      obtain rfl := eq_nil_of_countBraces pending counted
      have split := append_of_countBraces counted
      rw [List.append_nil] at split
      rw [split]

theorem closingLine_nil (line : List Char) : closingLine line [] = line := rfl

/-- A block that ends with the last of several lines is kept but for the blanks at the ends of
its first line. -/
theorem spans_lines {number : Nat} {line last : List Char} {lines : List (List Char)}
    {braces : Braces} (solid : IsSolid line)
    (opens : startsCondition (Text.trim line) = true)
    (ended : ∃ blanks, Text.AllBlank blanks ∧ line = Text.trim line ++ blanks)
    (stays : bracesBehind? Braces.start (line :: lines) = some braces)
    (noComment : startsComment (Text.trim last) = false)
    (closed : countBraces .outside braces last = .closed last []) :
    Spans number (line :: (lines ++ [last]))
      { line := number, text := Text.trim line ++ blockText (lines ++ [last]) } := by
  obtain ⟨blanks, blank, shape⟩ := ended
  obtain ⟨_, next, pending, behind⟩ := bracesBehind?_cons_eq_some_iff.mp stays
  have opened : countBraces .outside Braces.start (Text.trim line) = .pending next := by
    apply countBraces_of_append_blank blank
    rwa [← shape]
  have closes : Closes { line := number, reversed := (Text.trim line).reverse, braces := next }
      _ _ := closes_of_bracesBehind? behind noComment closed
  have spans := Spans.block solid opens opened closes
  rw [closingLine_nil, List.reverse_reverse] at spans
  simpa [blockText] using spans

section

variable {condition : Condition} {body : List Char}

theorem isSolid_headLine (condition : Condition) (rest : List Char) :
    IsSolid (condition.headText ++ rest) ∧
      startsCondition (Text.trim (condition.headText ++ rest)) = true := by
  have opens := startsCondition_headText condition (Text.trimEnd rest)
  rw [← Condition.trim_headText] at opens
  refine ⟨⟨?_, not_comment_of_startsCondition opens⟩, opens⟩
  intro nothing
  rw [nothing] at opens
  cases opens

/-- A block whose braces are closed by its last character only. -/
theorem scans_block (identifier : isIdentifier condition.name = true)
    (fresh : Condition.AreFresh [] condition.parameters) {braces : Braces}
    (stays : bracesThrough? false .outside Braces.entered body = some braces)
    (ends : bracesThrough? false .outside Braces.entered (body ++ ['\x7d']) = none) :
    Scans 1 ((condition.headText ++ (body ++ ['\x7d'])).splitOn '\n')
      [{ line := 1, text := condition.headText ++ trimFirstLine (body ++ ['\x7d']) }] := by
  have headUnbroken := Condition.not_mem_headText identifier fresh
    (by decide : Condition.isHeadCharacter '\n' = false) (by decide)
  rw [← bracesThrough?_headText identifier fresh, bracesThrough?_eq_bracesBehind?] at stays ends
  obtain ⟨first, others, splitBody⟩ :=
    List.exists_cons_of_ne_nil (List.splitOn_ne_nil '\n' (body ++ ['\x7d']))
  have splitWhole := Text.splitOn_append_of_not_mem headUnbroken (body ++ ['\x7d'])
  rw [splitBody, List.modifyHead_cons] at splitWhole
  obtain ⟨front, last, split, longer⟩ :=
    Text.exists_splitOn_append '\n' (condition.headText ++ body)
  have splitLast := longer ['\x7d'] (by decide)
  rw [List.append_assoc] at splitLast
  rw [split, bracesBehind?_append] at stays
  rw [splitLast, bracesBehind?_append] at ends
  obtain ⟨inner, behindFront, behindLast⟩ := Option.bind_eq_some_iff.mp stays
  rw [behindFront, Option.bind_some] at ends
  obtain ⟨noComment, closed⟩ := closes_last behindLast ends
  have trimmed := Condition.trim_headText condition first
  obtain ⟨solid, opens⟩ := isSolid_headLine condition first
  rw [trimFirstLine_of_splitOn splitBody, splitWhole]
  rw [splitWhole] at splitLast
  apply Spans.scans
  cases front with
  | nil =>
      -- The block is one line, which ends with the brace and so is not trimmed.
      obtain ⟨line, rfl⟩ := List.cons.inj splitLast
      obtain rfl : Braces.start = inner := by simpa [bracesBehind?] using behindFront
      have inline : first = body ++ ['\x7d'] := by
        have whole := Text.flatMap_splitOn '\n' (body ++ ['\x7d'])
        rw [splitBody] at whole
        simpa using whole
      have kept : Text.trimEnd first = first := by
        rw [inline]
        exact Text.trimEnd_append (by decide) []
      rw [kept] at trimmed ⊢
      rw [← line, ← trimmed] at closed
      have spans : Spans 1 _ _ := .closed solid opens closed
      rw [closingLine_nil, trimmed] at spans
      rwa [blockText, List.flatMap_nil, List.append_nil]
  | cons line front =>
      obtain ⟨rfl, rfl⟩ := List.cons.inj splitLast
      obtain ⟨blanks, blank, shape⟩ := Text.exists_trimEnd first
      have ended : ∃ blanks, Text.AllBlank blanks ∧
          condition.headText ++ first = Text.trim (condition.headText ++ first) ++ blanks := by
        refine ⟨blanks, blank, ?_⟩
        rw [trimmed, List.append_assoc, ← shape]
      have spans : Spans 1 _ _ := spans_lines solid opens ended behindFront noComment closed
      rwa [trimmed, List.append_assoc] at spans

end

theorem tokenBraces?_append {braces : Braces} (front back : List Expression.Token) :
    tokenBraces? braces (front ++ back) =
      (tokenBraces? braces front).bind (tokenBraces? · back) := by
  fun_induction tokenBraces? braces front with
  | case1 => rfl
  | case2 braces tokens induction => exact induction
  | case3 braces tokens closed =>
      rw [List.cons_append, tokenBraces?, if_pos closed]
      rfl
  | case4 braces tokens stays induction =>
      rw [List.cons_append, tokenBraces?, if_neg stays]
      exact induction
  | case5 braces token tokens noOpening noClosing induction =>
      rw [List.cons_append, tokenBraces?_cons noOpening noClosing]
      exact induction

/-- Between blanks, an expression without broken literals leaves its block open, and the
brace behind it closes the block. -/
theorem bracesThrough?_laidOut {expression before after : List Char}
    {parameters : List String}
    (checked : Expression.check parameters expression = .ok ())
    (unbroken : ∀ literal ∈ Expression.literals expression, '\n' ∉ literal)
    (beforeBlank : Text.AllBlank before) (afterBlank : Text.AllBlank after) :
    bracesThrough? false .outside Braces.entered (before ++ (expression ++ after)) =
        some Braces.entered ∧
      bracesThrough? false .outside Braces.entered
        (before ++ (expression ++ after) ++ ['\x7d']) = none := by
  obtain ⟨tokens, cut, nested⟩ := exists_nested_of_check checked
  obtain ⟨found, cuts, rfl⟩ := Expression.tokenize_eq_ok_iff.mp cut
  have inline := unbroken_of_literals cuts.lexemes_eq unbroken
  have counted := tokenBraces?_of_nested nested
  have brace : Expression.Cuts ['\x7d'] [{ token := .closing .curly, text := ['\x7d'] }] :=
    .mark rfl .nil
  have braceEnds : Expression.EndsRun ['\x7d'] := Expression.endsRun_cons (by decide) []
  constructor
  · have whole := cuts.surrounded beforeBlank afterBlank Expression.endsRun_nil .nil
    rw [List.append_nil, List.append_nil] at whole
    rw [bracesThrough?_eq_tokenBraces? whole.lexemes_eq inline]
    exact counted
  · have whole := cuts.surrounded beforeBlank afterBlank braceEnds brace
    have wholeInline : ∀ lexeme ∈ found ++ [{ token := .closing .curly, text := ['\x7d'] }],
        lexeme.token = .literal → '\n' ∉ lexeme.text := by
      intro lexeme member literal
      rcases List.mem_append.mp member with inFound | last
      · exact inline lexeme inFound literal
      · obtain rfl := List.mem_singleton.mp last
        cases literal
    have layout : before ++ (expression ++ after) ++ ['\x7d'] =
        before ++ (expression ++ (after ++ ['\x7d'])) := by simp
    rw [layout, bracesThrough?_eq_tokenBraces? whole.lexemes_eq wholeInline, List.map_append,
      tokenBraces?_append]
    have outside : tokenBraces? Braces.entered (found.map (·.token)) = some Braces.entered :=
      counted
    rw [outside]
    rfl

/-- What the scanner keeps of an expression between blanks.  If it starts on the first line
of its block and that line ends before the closing brace, the blanks at the end of that
line are dropped. -/
def keptExpression (before expression after : List Char) : List Char :=
  if '\n' ∈ before ∨ '\n' ∉ expression ++ after then expression
  else trimFirstLine expression

theorem exists_trimEnd_append {blanks : List Char} (blank : Text.AllBlank blanks)
    (text : List Char) :
    ∃ kept, Text.AllBlank kept ∧ Text.trimEnd (blanks ++ text) = kept ++ Text.trimEnd text := by
  by_cases textBlank : Text.AllBlank text
  · refine ⟨[], Text.allBlank_nil, ?_⟩
    rw [Text.trimEnd_of_allBlank (blank.append textBlank), Text.trimEnd_of_allBlank textBlank]
    rfl
  · exact ⟨blanks, blank, Text.trimEnd_append_of_not_allBlank textBlank blanks⟩

theorem exists_trimFirstLine {before after : List Char} (expression : List Char)
    (beforeBlank : Text.AllBlank before) (afterBlank : Text.AllBlank after) :
    ∃ start stop, Text.AllBlank start ∧ Text.AllBlank stop ∧
      trimFirstLine (before ++ (expression ++ after) ++ ['\x7d']) =
        start ++ keptExpression before expression after ++ stop ++ ['\x7d'] := by
  by_cases breakBefore : '\n' ∈ before
  · obtain ⟨line, rest, rfl, unbroken⟩ := List.eq_append_cons_of_mem breakBefore
    refine ⟨'\n' :: rest, after, beforeBlank.right, afterBlank, ?_⟩
    rw [keptExpression, if_pos (.inl breakBefore)]
    have layout : line ++ '\n' :: rest ++ (expression ++ after) ++ ['\x7d'] =
        line ++ '\n' :: (rest ++ (expression ++ after) ++ ['\x7d']) := by simp
    rw [layout, trimFirstLine_append_break unbroken,
      Text.trimEnd_of_allBlank beforeBlank.left]
    simp
  · by_cases breakBehind : '\n' ∈ expression ++ after
    · rw [keptExpression, if_neg (by simp [breakBefore, breakBehind])]
      by_cases breakInside : '\n' ∈ expression
      · obtain ⟨line, rest, rfl, unbroken⟩ := List.eq_append_cons_of_mem breakInside
        obtain ⟨start, startBlank, trimmed⟩ := exists_trimEnd_append beforeBlank line
        refine ⟨start, after, startBlank, afterBlank, ?_⟩
        have layout : before ++ (line ++ '\n' :: rest ++ after) ++ ['\x7d'] =
            (before ++ line) ++ '\n' :: (rest ++ after ++ ['\x7d']) := by simp
        rw [layout, trimFirstLine_append_break (by simp [breakBefore, unbroken]), trimmed,
          trimFirstLine_append_break unbroken]
        simp
      · have breakAfter : '\n' ∈ after := by simpa [breakInside] using breakBehind
        obtain ⟨line, rest, rfl, unbroken⟩ := List.eq_append_cons_of_mem breakAfter
        obtain ⟨start, startBlank, trimmed⟩ := exists_trimEnd_append beforeBlank expression
        refine ⟨start, '\n' :: rest, startBlank, afterBlank.right, ?_⟩
        have layout : before ++ (expression ++ (line ++ '\n' :: rest)) ++ ['\x7d'] =
            ((before ++ expression) ++ line) ++ '\n' :: (rest ++ ['\x7d']) := by simp
        rw [layout, trimFirstLine_append_break (by simp [breakBefore, breakInside, unbroken]),
          Text.trimEnd_append_blank afterBlank.left, trimmed, trimFirstLine_of_not_mem breakInside]
        simp
    · rw [keptExpression, if_pos (.inr breakBehind)]
      refine ⟨before, after, beforeBlank, afterBlank, ?_⟩
      have inline : '\n' ∉ before ++ (expression ++ after) ++ ['\x7d'] := by
        simpa [breakBefore] using breakBehind
      rw [trimFirstLine_of_not_mem inline, Text.trimEnd_append (by decide)]
      simp [Text.trimEnd]

theorem keptExpression_congr {before start expression after stop : List Char}
    (breaksBefore : '\n' ∈ start ↔ '\n' ∈ before) (breaksAfter : '\n' ∈ stop ↔ '\n' ∈ after) :
    keptExpression start expression stop = keptExpression before expression after := by
  simp only [keptExpression, List.mem_append, breaksBefore, breaksAfter]

/-- The carriage returns of line breaks are no part of the lines of a block. -/
theorem exists_lines_laidOut {head expression before after : List Char}
    (headNoReturn : '\r' ∉ head) (noReturn : '\r' ∉ expression)
    (beforeBlank : Text.AllBlank before) (afterBlank : Text.AllBlank after) :
    ∃ start stop, Text.AllBlank start ∧ Text.AllBlank stop ∧
      ('\n' ∈ start ↔ '\n' ∈ before) ∧ ('\n' ∈ stop ↔ '\n' ∈ after) ∧
      Text.lines (head ++ before ++ expression ++ after ++ ['\x7d']) =
        (head ++ (start ++ (expression ++ stop) ++ ['\x7d'])).splitOn '\n' := by
  obtain ⟨start, startKept, breaksBefore, unifiedBefore⟩ :=
    Document.exists_unifyLineBreaks_append before (expression ++ after)
  obtain ⟨stop, stopKept, breaksAfter, unifiedAfter⟩ :=
    Document.exists_unifyLineBreaks_append after []
  refine ⟨start, stop, beforeBlank.of_sublist startKept, afterBlank.of_sublist stopKept,
    breaksBefore, breaksAfter, ?_⟩
  rw [Text.lines_append_inline (by decide)]
  simp only [List.append_assoc]
  rw [Document.unifyLineBreaks_append headNoReturn, unifiedBefore,
    Document.unifyLineBreaks_append noReturn]
  rw [List.append_nil, Document.unifyLineBreaks, List.append_nil] at unifiedAfter
  rw [unifiedAfter]
  simp only [List.append_assoc]

/-- In any layout, an expression without broken literals makes up one statement with the
head and the last brace of its block. -/
theorem scan_laidOut {condition : Condition} {before after : List Char}
    (identifier : isIdentifier condition.name = true)
    (fresh : Condition.AreFresh [] condition.parameters)
    (checked : Expression.check (condition.parameters.map (·.name))
      condition.expression.toList = .ok ())
    (noReturn : '\r' ∉ condition.expression.toList)
    (unbroken : ∀ literal ∈ Expression.literals condition.expression.toList, '\n' ∉ literal)
    (beforeBlank : Text.AllBlank before) (afterBlank : Text.AllBlank after) :
    ∃ start stop, Text.AllBlank start ∧ Text.AllBlank stop ∧
      scan (condition.headText ++ before ++ condition.expression.toList ++ after ++
          ['\x7d']) =
        .ok [{ line := 1
               text := condition.headText ++
                (start ++ keptExpression before condition.expression.toList after ++ stop ++
                  ['\x7d']) }] := by
  have headNoReturn := Condition.not_mem_headText identifier fresh
    (by decide : Condition.isHeadCharacter '\r' = false) (by decide)
  obtain ⟨before', after', blankBefore, blankAfter, breaksBefore, breaksAfter, lines⟩ :=
    exists_lines_laidOut headNoReturn noReturn beforeBlank afterBlank
  obtain ⟨stays, ends⟩ := bracesThrough?_laidOut checked unbroken blankBefore blankAfter
  obtain ⟨start, stop, startBlank, stopBlank, kept⟩ :=
    exists_trimFirstLine condition.expression.toList blankBefore blankAfter
  refine ⟨start, stop, startBlank, stopBlank, ?_⟩
  rw [keptExpression_congr breaksBefore breaksAfter] at kept
  have scans := scans_block identifier fresh stays ends
  rw [kept] at scans
  rw [scan, lines]
  exact scanFrom_eq_ok_iff.mpr scans

theorem scan_laidOut_braces :
    Expression.check ["a"] "a == '\x7d' ||\n  a == \"# \x7b\"".toList = .ok () ∧
      ∃ start stop, Text.AllBlank start ∧ Text.AllBlank stop ∧
        scan "condition c(a: string) \x7b\n  a == '\x7d' ||\n  a == \"# \x7b\"\r\n\x7d".toList =
          .ok [{ line := 1
                 text := "condition c(a: string) \x7b".toList ++
                  (start ++ "a == '\x7d' ||\n  a == \"# \x7b\"".toList ++ stop ++
                    ['\x7d']) }] := by
  let condition : Condition :=
    { name := "c"
      parameters := [{ name := "a", type := .string }]
      expression := "a == '\x7d' ||\n  a == \"# \x7b\"" }
  have checked : Expression.check (condition.parameters.map (·.name))
      condition.expression.toList = .ok () := by decide +kernel
  have unbroken : ∀ literal ∈ Expression.literals condition.expression.toList,
      '\n' ∉ literal := by decide +kernel
  have beforeBlank : Text.AllBlank "\n  ".toList := by decide
  have afterBlank : Text.AllBlank "\r\n".toList := by decide
  have identifier : isIdentifier condition.name = true := by decide
  have fresh : Condition.AreFresh [] condition.parameters := rfl
  obtain ⟨start, stop, startBlank, stopBlank, scanned⟩ :=
    scan_laidOut identifier fresh checked (by decide) unbroken beforeBlank afterBlank
  have kept : keptExpression "\n  ".toList condition.expression.toList "\r\n".toList =
      condition.expression.toList := if_pos (.inl (by decide))
  have head : condition.headText = "condition c(a: string) \x7b".toList := by decide +kernel
  have layout : "condition c(a: string) \x7b".toList ++ "\n  ".toList ++
      condition.expression.toList ++ "\r\n".toList ++ ['\x7d'] =
        "condition c(a: string) \x7b\n  a == '\x7d' ||\n  a == \"# \x7b\"\r\n\x7d".toList := by
    decide +kernel
  rw [kept, head, layout] at scanned
  exact ⟨checked, start, stop, startBlank, stopBlank, scanned⟩

/-- A line of a literal that looks like the end of the block ends it, and one that looks like
a comment is dropped. -/
theorem scan_brokenLiterals :
    (Expression.check ["a"] "a == \"\n\x7d\n\"".toList = .ok () ∧
      ∀ statement,
        scan "condition c(a: string) \x7b\n  a == \"\n\x7d\n\"\n\x7d".toList ≠
          .ok [statement]) ∧
    Expression.check ["a"] "a == \"\n#x\n\"".toList = .ok () ∧
      ∃ statement,
        scan "condition c(a: string) \x7b\n  a == \"\n#x\n\"\n\x7d".toList =
            .ok [statement] ∧
          '#' ∉ statement.text := by
  have cutShort : scan "condition c(a: string) \x7b\n  a == \"\n\x7d\n\"\n\x7d".toList =
      .ok [{ line := 1, text := "condition c(a: string) \x7b\n  a == \"\n\x7d".toList },
        { line := 4, text := ['"'] }, { line := 5, text := ['\x7d'] }] := by decide +kernel
  refine ⟨⟨by decide +kernel, ?_⟩, by decide +kernel, ?_⟩
  · intro statement single
    rw [cutShort] at single
    simp at single
  · exact ⟨{ line := 1
             text := "condition c(a: string) \x7b\n  a == \"\n\"\n\x7d".toList },
      by decide +kernel, by decide⟩

end Rebac.Dsl
