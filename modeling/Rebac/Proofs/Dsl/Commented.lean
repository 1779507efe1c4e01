import Rebac.Proofs.Dsl.Fitting
import Rebac.Proofs.Dsl.Layout
import Rebac.Proofs.Dsl.Progress
import Rebac.Proofs.Dsl.Quoting
import Rebac.Proofs.Dsl.Remark

/-!
# Comments behind the lines of a text

A comment behind a line that ends a statement does not change what is read: single lines
lose it, and it stands behind the brace that closes a block.  On every other line of a
block the comment stays in the text of the block.  There a hash makes no token, so the
block is read only if the line ends inside of a string literal.
-/

namespace Rebac.Dsl

/-- Blanks with a comment behind them. -/
def IsRemark (remark : List Char) : Prop :=
  ∃ gap comment, gap ≠ [] ∧ Text.AllBlank gap ∧ remark = gap ++ '#' :: comment

theorem isRemark_space (comment : List Char) : IsRemark (' ' :: '#' :: comment) :=
  ⟨[' '], comment, by simp, by decide, rfl⟩

theorem IsRemark.append {remark : List Char} (isRemark : IsRemark remark) (more : List Char) :
    IsRemark (remark ++ more) := by
  obtain ⟨gap, comment, filled, blank, rfl⟩ := isRemark
  exact ⟨gap, comment ++ more, filled, blank, by simp⟩

theorem trimStart_ne_nil {line : List Char} (filled : Text.trim line ≠ []) :
    Text.trimStart line ≠ [] := by
  intro nothing
  rw [Text.trim, nothing] at filled
  exact filled rfl

theorem trim_append_comment {line : List Char} (filled : Text.trim line ≠ [])
    (comment : List Char) :
    ∃ remark, IsRemark remark ∧
      Text.trim (line ++ ' ' :: '#' :: comment) = Text.trim line ++ remark := by
  obtain ⟨blanks, blank, split⟩ := Text.exists_trimEnd (Text.trimStart line)
  have shape : Text.trimStart line = Text.trim line ++ blanks := split
  have gap : Text.AllBlank (blanks ++ [' ']) := blank.append (by decide)
  refine ⟨blanks ++ [' '] ++ '#' :: Text.trimEnd comment,
    ⟨blanks ++ [' '], Text.trimEnd comment, by simp, gap, rfl⟩, ?_⟩
  have layout : Text.trimStart (line ++ ' ' :: '#' :: comment) =
      (Text.trim line ++ (blanks ++ [' '])) ++ '#' :: comment := by
    rw [Text.trimStart_append_of_ne_nil (trimStart_ne_nil filled), shape]
    simp only [List.append_assoc, List.singleton_append]
  rw [Text.trim, layout, Text.trimEnd_append (by decide)]
  simp only [List.append_assoc]

theorem dropTrailingComment_trim_append {line : List Char} (filled : Text.trim line ≠ [])
    (comment : List Char) :
    dropTrailingComment (Text.trim (line ++ ' ' :: '#' :: comment)) =
      dropTrailingComment (Text.trim line) := by
  rw [Text.trim, Text.trim, dropTrailingComment_trimEnd, dropTrailingComment_trimEnd,
    Text.trimStart_append_of_ne_nil (trimStart_ne_nil filled),
    dropTrailingComment_append (by decide)]

theorem startsComment_append {text : List Char} (filled : text ≠ []) (more : List Char) :
    startsComment (text ++ more) = startsComment text := by
  obtain ⟨first, text, rfl⟩ := List.exists_cons_of_ne_nil filled
  by_cases hash : first = '#'
  · rw [hash]
    rfl
  · simp [startsComment, hash]

theorem startsCondition_iff {text : List Char} :
    startsCondition text = true ↔
      ∃ rest, text = "condition".toList ++ rest ∧
        ∀ character, rest.head? = some character →
          Text.isBlank character = true ∨ character = '(' := by
  constructor
  · intro opens
    unfold startsCondition afterKeyword? at opens
    split at opens
    · cases opens
    · rename_i stripped
      exact ⟨[], (List.isPrefixOf?_eq_some_iff_append_eq.mp stripped).symm, by simp⟩
    · rename_i next rest stripped
      refine ⟨next :: rest, (List.isPrefixOf?_eq_some_iff_append_eq.mp stripped).symm, ?_⟩
      intro character first
      obtain rfl := Option.some.inj first
      split at opens
      · rename_i ends
        simpa using ends
      · cases opens
  · rintro ⟨rest, rfl, ends⟩
    unfold startsCondition afterKeyword?
    rw [Text.isPrefixOf?_append]
    cases rest with
    | nil => rfl
    | cons next rest => simpa using ends next rfl

theorem startsCondition_append {blank : Char} (isBlank : Text.isBlank blank = true)
    (text rest : List Char) :
    startsCondition (text ++ blank :: rest) = startsCondition text := by
  rw [Bool.eq_iff_iff, startsCondition_iff, startsCondition_iff]
  constructor
  · rintro ⟨later, whole, ends⟩
    rcases List.append_eq_append_iff.mp whole with ⟨inner, keyword, behind⟩ |
      ⟨inner, shape, behind⟩
    · cases inner with
      | nil => exact ⟨[], by simpa using keyword.symm, by simp⟩
      | cons character inner =>
          obtain ⟨rfl, _⟩ := List.cons.inj behind
          have solid : ∀ other ∈ "condition".toList, Text.isBlank other = false := by
            simp [Text.isBlank]
          rw [solid blank (by rw [keyword]; simp)] at isBlank
          cases isBlank
    · refine ⟨inner, shape, fun character start => ends character ?_⟩
      rw [behind, List.head?_append, start]
      rfl
  · rintro ⟨later, rfl, ends⟩
    refine ⟨later ++ blank :: rest, List.append_assoc _ _ _, ?_⟩
    intro character start
    cases later with
    | nil =>
        obtain rfl := Option.some.inj start
        exact .inl isBlank
    | cons next later => exact ends character start

theorem IsRemark.startsCondition_append {remark : List Char} (isRemark : IsRemark remark)
    (text : List Char) : startsCondition (text ++ remark) = startsCondition text := by
  obtain ⟨gap, comment, filled, blank, rfl⟩ := isRemark
  obtain ⟨first, gap, rfl⟩ := List.exists_cons_of_ne_nil filled
  exact Dsl.startsCondition_append (blank first List.mem_cons_self) text _

theorem countBraces_cons_eq_closed_iff {quoting : Quoting} {braces : Braces}
    {character : Char} {line through rest : List Char} :
    countBraces quoting braces (character :: line) = .closed through rest ↔
      (stepBraces quoting braces character = none ∧ through = [character] ∧ line = rest) ∨
        ∃ after next tail, stepBraces quoting braces character = some (after, next) ∧
          countBraces after next line = .closed tail rest ∧ through = character :: tail := by
  rw [countBraces_cons]
  cases stepBraces quoting braces character with
  | none => simp [eq_comm]
  | some step =>
      obtain ⟨after, next⟩ := step
      cases later : countBraces after next line with
      | pending behind => simp [LineEnd.behind, later]
      | closed front back => simp [LineEnd.behind, later, eq_comm, and_comm]

theorem countBraces_append_of_closed {quoting : Quoting} {braces : Braces}
    {line through rest : List Char}
    (closed : countBraces quoting braces line = .closed through rest) (more : List Char) :
    countBraces quoting braces (line ++ more) = .closed through (rest ++ more) := by
  induction line generalizing quoting braces through with
  | nil => cases quoting <;> cases closed
  | cons character line induction =>
      apply countBraces_cons_eq_closed_iff.mpr
      rcases countBraces_cons_eq_closed_iff.mp closed with ⟨step, rfl, rfl⟩ |
        ⟨after, next, tail, step, later, rfl⟩
      · exact .inl ⟨step, rfl, rfl⟩
      · exact .inr ⟨after, next, tail, step, induction later, rfl⟩

theorem countBraces_append_of_pending {quoting : Quoting} {braces behind : Braces}
    {line : List Char} (pending : countBraces quoting braces line = .pending behind)
    (more : List Char) :
    (∃ later, countBraces quoting braces (line ++ more) = .pending later) ∨
      ∃ through rest, '\x7d' ∈ through ∧ more = through ++ rest ∧
        countBraces quoting braces (line ++ more) = .closed (line ++ through) rest := by
  induction line generalizing quoting braces with
  | nil =>
      cases counted : countBraces quoting braces more with
      | pending later => exact .inl ⟨later, counted⟩
      | closed through rest =>
          exact .inr ⟨through, rest, last_of_countBraces counted,
            append_of_countBraces counted, counted⟩
  | cons character line induction =>
      obtain ⟨after, next, step, inner⟩ := countBraces_cons_eq_pending_iff.mp pending
      rcases induction inner with ⟨later, open'⟩ | ⟨through, rest, brace, split, closed⟩
      · exact .inl ⟨later, countBraces_cons_eq_pending_iff.mpr ⟨after, next, step, open'⟩⟩
      · exact .inr ⟨through, rest, brace, split, countBraces_cons_eq_closed_iff.mpr
          (.inr ⟨after, next, line ++ through, step, closed, rfl⟩)⟩

/-- Whether at most a comment stands behind a closing brace. -/
def isBare (rest : List Char) : Bool :=
  (Text.trimStart rest).isEmpty || startsComment (Text.trimStart rest)

theorem closingLine_of_isBare {rest : List Char} (bare : isBare rest = true)
    (through : List Char) : closingLine through rest = through :=
  if_pos bare

theorem closingLine_of_not_isBare {rest : List Char} (text : isBare rest = false)
    (through : List Char) : closingLine through rest = through ++ rest := by
  have filled : ¬isBare rest = true := by simp [text]
  exact if_neg filled

theorem isBare_append {rest remark : List Char} (isRemark : IsRemark remark) :
    isBare (rest ++ remark) = isBare rest := by
  obtain ⟨gap, comment, _, blank, rfl⟩ := isRemark
  by_cases filled : Text.trimStart rest = []
  · obtain ⟨blanks, restBlank, split⟩ := Text.exists_trimStart rest
    rw [filled, List.append_nil] at split
    subst split
    rw [isBare, isBare, Text.trimStart_blank_append restBlank, filled,
      Text.trimStart_blank_append blank]
    rfl
  · have nonempty : (Text.trimStart rest).isEmpty = false := by simpa using filled
    rw [isBare, isBare, Text.trimStart_append_of_ne_nil filled, startsComment_append filled,
      nonempty]
    simp [filled]

/-- Whether a line closes a block with at most a comment behind the brace. -/
def endsBlock (braces : Braces) (line : List Char) : Bool :=
  match countBraces .outside braces line with
  | .pending _ => false
  | .closed _ rest => isBare rest

/-- Whether a line behind the open block, if there is one, ends a statement: as a statement
on one line, or as the last line of a block. -/
def endsStatement : Option OpenBlock → List Char → Bool
  | some block, line => endsBlock block.braces line
  | none, line =>
      !startsCondition (Text.trim line) || endsBlock Braces.start (Text.trim line)

/-- The text of a statement through one of its lines. -/
def textThrough : Option OpenBlock → List Char → List Char
  | some block, line => block.reversed.reverse ++ '\n' :: line
  | none, line => Text.trim line

/-- Whether a line ends inside of a string literal of its statement. -/
def EndsInLiteral (block : Option OpenBlock) (line : List Char) : Prop :=
  Quoting.behind .outside (textThrough block line) ≠ .outside

instance (block : Option OpenBlock) (line : List Char) :
    Decidable (EndsInLiteral block line) :=
  inferInstanceAs (Decidable (_ ≠ _))

theorem exists_of_endsBlock {braces : Braces} {line : List Char}
    (ends : endsBlock braces line = true) :
    ∃ through rest, countBraces .outside braces line = .closed through rest ∧
      isBare rest = true := by
  unfold endsBlock at ends
  split at ends
  · cases ends
  · rename_i through rest closed
    exact ⟨through, rest, closed, ends⟩

variable {block : Option OpenBlock} {line : List Char}

/-- A comment behind a line that ends its statement is dropped. -/
theorem advance_append_of_endsStatement (solid : IsSolid line)
    (ends : endsStatement block line = true) (number : Nat) (comment : List Char) :
    advance number block (line ++ ' ' :: '#' :: comment) = advance number block line := by
  obtain ⟨remark, isRemark, trimmed⟩ := trim_append_comment solid.1 comment
  have noComment : startsComment (Text.trim (line ++ ' ' :: '#' :: comment)) = false := by
    rw [trimmed, startsComment_append solid.1, solid.2]
  have opens : startsCondition (Text.trim (line ++ ' ' :: '#' :: comment)) =
      startsCondition (Text.trim line) := by
    rw [trimmed, isRemark.startsCondition_append]
  have filled : IsSolid (line ++ ' ' :: '#' :: comment) :=
    ⟨by simp [trimmed, solid.1], noComment⟩
  cases block with
  | some block =>
      obtain ⟨through, rest, closed, bare⟩ := exists_of_endsBlock ends
      have space := isRemark_space comment
      have closedToo := countBraces_append_of_closed closed (' ' :: '#' :: comment)
      rw [advance_closing solid.2 closed, advance_closing noComment closedToo,
        closingLine_of_isBare bare, closingLine_of_isBare (by rwa [isBare_append space])]
  | none =>
      cases condition : startsCondition (Text.trim line) with
      | false =>
          rw [advance_plain solid condition, advance_plain filled (by rwa [opens]),
            dropTrailingComment_trim_append solid.1]
      | true =>
          obtain ⟨through, rest, closed, bare⟩ :=
            exists_of_endsBlock (by simpa [endsStatement, condition] using ends)
          have closedToo := countBraces_append_of_closed closed remark
          rw [← trimmed] at closedToo
          rw [advance_closed solid condition closed,
            advance_closed filled (by rwa [opens]) closedToo, closingLine_of_isBare bare,
            closingLine_of_isBare (by rwa [isBare_append isRemark])]

/-- What a line adds belongs to a statement that starts with a text. -/
inductive Progress.StartsWith (start : List Char) : Progress → Prop where
  | complete {statement : Statement} :
      start <+: statement.text →
      StartsWith start { statements := [statement], block := none }
  | unfinished {block : OpenBlock} :
      start <+: block.reversed.reverse →
      StartsWith start { statements := [], block := some block }

theorem IsRemark.of_brace {through rest : List Char} (isRemark : IsRemark (through ++ rest))
    (brace : '\x7d' ∈ through) : IsRemark through := by
  obtain ⟨gap, comment, filled, blank, split⟩ := isRemark
  rcases List.append_eq_append_iff.mp split with ⟨inner, shape, _⟩ | ⟨inner, rfl, behind⟩
  · rw [shape] at blank
    exact absurd (blank _ (List.mem_append_left _ brace)) (by decide)
  · cases inner with
    | nil =>
        rw [List.append_nil] at brace
        exact absurd (blank _ brace) (by decide)
    | cons first inner =>
        obtain ⟨rfl, _⟩ := List.cons.inj behind
        exact ⟨gap, inner, filled, blank, rfl⟩

theorem prefix_closingLine (through rest : List Char) : through <+: closingLine through rest := by
  unfold closingLine
  simp only
  split
  · exact List.prefix_refl _
  · exact List.prefix_append _ _

/-- If a line does not end its block, the block keeps the start of a comment behind it. -/
theorem kept_of_not_endsBlock {braces : Braces} {remark : List Char}
    (stays : endsBlock braces line = false) (isRemark : IsRemark remark) :
    (∃ later, countBraces .outside braces (line ++ remark) = .pending later) ∨
      ∃ through rest kept, countBraces .outside braces (line ++ remark) = .closed through rest ∧
        IsRemark kept ∧ line ++ kept <+: closingLine through rest := by
  unfold endsBlock at stays
  cases counted : countBraces .outside braces line with
  | pending behind =>
      rcases countBraces_append_of_pending counted remark with opened |
        ⟨through, rest, brace, rfl, closed⟩
      · exact .inl opened
      · exact .inr ⟨line ++ through, rest, through, closed, isRemark.of_brace brace,
          prefix_closingLine _ _⟩
  | closed through rest =>
      rw [counted] at stays
      have kept : closingLine through (rest ++ remark) = line ++ remark := by
        rw [closingLine_of_not_isBare (by rwa [isBare_append isRemark]), ← List.append_assoc,
          ← append_of_countBraces counted]
      exact .inr ⟨through, rest ++ remark, remark, countBraces_append_of_closed counted remark,
        isRemark, kept ▸ List.prefix_refl _⟩

/-- A comment behind a line that does not end its statement stays in the text of the
statement. -/
theorem startsWith_advance_append (solid : IsSolid line)
    (stays : endsStatement block line = false) (number : Nat) (comment : List Char) :
    ∃ remark, IsRemark remark ∧
      (advance number block (line ++ ' ' :: '#' :: comment)).StartsWith
        (textThrough block line ++ remark) := by
  obtain ⟨remark, isRemark, trimmed⟩ := trim_append_comment solid.1 comment
  have noComment : startsComment (Text.trim (line ++ ' ' :: '#' :: comment)) = false := by
    rw [trimmed, startsComment_append solid.1, solid.2]
  cases block with
  | some block =>
      have space := isRemark_space comment
      rcases kept_of_not_endsBlock stays space with ⟨later, opened⟩ |
        ⟨through, rest, kept, closed, isKept, starts⟩
      · rw [advance_inner noComment opened]
        refine ⟨_, space, .unfinished ?_⟩
        simp [textThrough, OpenBlock.extend, blockText]
      · rw [advance_closing noComment closed]
        refine ⟨kept, isKept, .complete ?_⟩
        rw [textThrough, List.append_assoc, List.cons_append, List.prefix_append_right_inj,
          List.cons_prefix_cons]
        exact ⟨rfl, starts⟩
  | none =>
      have filled : IsSolid (line ++ ' ' :: '#' :: comment) :=
        ⟨by simp [trimmed, solid.1], noComment⟩
      obtain ⟨condition, inBlock⟩ : startsCondition (Text.trim line) = true ∧
          endsBlock Braces.start (Text.trim line) = false := by
        simpa [endsStatement] using stays
      have opens : startsCondition (Text.trim (line ++ ' ' :: '#' :: comment)) = true := by
        rw [trimmed, isRemark.startsCondition_append, condition]
      rcases kept_of_not_endsBlock inBlock isRemark with ⟨later, opened⟩ |
        ⟨through, rest, kept, closed, isKept, starts⟩
      · rw [← trimmed] at opened
        rw [advance_opening filled opens opened]
        refine ⟨remark, isRemark, .unfinished ?_⟩
        simp [textThrough, trimmed]
      · rw [← trimmed] at closed
        rw [advance_closed filled opens closed]
        exact ⟨kept, isKept, .complete starts⟩

theorem Closes.prefix {block : OpenBlock} {own : List (List Char)} {statement : Statement}
    (closes : Closes block own statement) : block.reversed.reverse <+: statement.text := by
  obtain ⟨_, _, _, _, _, _, _, _, _, text⟩ := closes.exists_closing
  rw [text, List.append_assoc]
  exact List.prefix_append _ _

theorem Progress.StartsWith.exists_statement {start : List Char} {found : Progress}
    (starts : found.StartsWith start) {number : Nat} {lines : List (List Char)}
    {statements : List Statement}
    (scanned : (scanFrom number found.block lines).map (found.statements ++ ·) =
      .ok statements) :
    ∃ statement ∈ statements, start <+: statement.text := by
  obtain ⟨later, scannedLater, rfl⟩ := map_eq_ok_iff.mp scanned
  cases starts with
  | complete inText => exact ⟨_, List.mem_append_left _ List.mem_cons_self, inText⟩
  | unfinished inBlock =>
      obtain ⟨_, statement, _, _, _, rfl, closes, _⟩ :=
        scanFrom_some_eq_ok_iff.mp scannedLater
      exact ⟨statement, List.mem_append_right _ List.mem_cons_self,
        inBlock.trans closes.prefix⟩

/-- An open block, if there is one, starts with its keyword. -/
def HasKeyword (block : Option OpenBlock) : Prop :=
  ∀ opened, block = some opened → startsCondition opened.reversed.reverse = true

theorem hasKeyword_advance (keyword : HasKeyword block) (number : Nat) (line : List Char) :
    HasKeyword (advance number block line).block := by
  intro opened same
  cases block with
  | some block =>
      have kept := keyword block rfl
      cases comment : startsComment (Text.trim line) with
      | true =>
          rw [advance_comment comment] at same
          obtain rfl := Option.some.inj same
          exact kept
      | false =>
          cases counted : countBraces .outside block.braces line with
          | closed through rest =>
              rw [advance_closing comment counted] at same
              cases same
          | pending braces =>
              rw [advance_inner comment counted] at same
              obtain rfl := Option.some.inj same
              have longer := startsCondition_append (by decide : Text.isBlank '\n' = true)
                block.reversed.reverse line
              simpa [OpenBlock.extend, blockText, kept] using longer
  | none =>
      rcases outside_cases number line with skipped | ⟨statement, spans⟩ |
        ⟨braces, solid, condition, counted⟩
      · rw [advance_skip skipped] at same
        cases same
      · cases spans with
        | plain solid noCondition =>
            rw [advance_plain solid noCondition] at same
            cases same
        | closed solid condition counted =>
            rw [advance_closed solid condition counted] at same
            cases same
        | block solid condition counted closes => cases closes
      · rw [advance_opening solid condition counted] at same
        obtain rfl := Option.some.inj same
        rwa [List.reverse_reverse]

theorem hasKeyword_progress (keyword : HasKeyword block) (number : Nat)
    (lines : List (List Char)) : HasKeyword (progress number block lines).block := by
  induction lines generalizing number block with
  | nil => exact keyword
  | cons line lines induction => exact induction (hasKeyword_advance keyword number line) _

theorem startsCondition_textThrough (keyword : HasKeyword block)
    (stays : endsStatement block line = false) :
    startsCondition (textThrough block line) = true := by
  cases block with
  | some block =>
      rw [textThrough, startsCondition_append (by decide : Text.isBlank '\n' = true)]
      exact keyword block rfl
  | none =>
      have parts : startsCondition (Text.trim line) = true ∧
          endsBlock Braces.start (Text.trim line) = false := by
        simpa [endsStatement] using stays
      exact parts.1

theorem exists_applyText {draft final : Draft} {statements : List Statement}
    (applied : draft.applyAll statements = .ok final) {statement : Statement}
    (member : statement ∈ statements) :
    ∃ before after : Draft, before.applyText statement.text = .ok after := by
  induction statements generalizing draft with
  | nil => cases member
  | cons first statements induction =>
      obtain ⟨next, appliedFirst, later⟩ := applyAll_cons_eq_ok_iff.mp applied
      rcases List.mem_cons.mp member with rfl | inLater
      · exact ⟨draft, next, appliedFirst⟩
      · exact induction later inLater

/-- A comment in a block that is read belongs to a literal that is open in front of it. -/
theorem behind_ne_of_remark {text remark more : List Char} (isRemark : IsRemark remark)
    {condition : Condition} (read : Condition.ofText (text ++ remark ++ more) = .ok condition) :
    Quoting.behind .outside text ≠ .outside := by
  obtain ⟨gap, comment, _, blank, rfl⟩ := isRemark
  have noQuote : ∀ character ∈ gap, Expression.isQuote character = false := by
    intro character member
    cases quote : Expression.isQuote character with
    | false => rfl
    | true =>
        have solid := Expression.not_isBlank_of_isQuote quote
        rw [blank character member] at solid
        cases solid
  have layout : text ++ (gap ++ '#' :: comment) ++ more =
      (text ++ gap) ++ '#' :: (comment ++ more) := by simp
  rw [layout] at read
  intro outside
  apply behind_ne_of_ofText read
  rw [Quoting.behind_append, outside, Quoting.behind_outside noQuote]

theorem ofText_of_applyText {draft next : Draft} {text : List Char}
    (applied : draft.applyText text = .ok next) (condition : startsCondition text = true) :
    ∃ condition, Condition.ofText text = .ok condition := by
  rw [Draft.applyText, if_pos condition] at applied
  obtain ⟨condition, read, _⟩ := Draft.step_of_addCondition applied
  exact ⟨condition, read⟩

/-- A line of a text that stands between other lines, if there are any.  The line breaks
around it are line feeds. -/
structure IsLine (before line after : List Char) : Prop where
  unbroken : '\n' ∉ line
  starts : before = [] ∨ ∃ front, before = front ++ ['\n']
  ends : after = [] ∨ line.getLast? ≠ some '\r' ∧ ∃ back, after = '\n' :: back

theorem IsLine.lines {before line after : List Char} (isLine : IsLine before line after)
    (filled : line ≠ []) :
    ∃ back, Text.lines (before ++ line ++ after) = Text.lines before ++ line :: back ∧
      ∀ comment, '\n' ∉ comment → ∃ kept,
        Text.lines (before ++ (line ++ " # ".toList ++ comment) ++ after) =
          Text.lines before ++ (line ++ ' ' :: '#' :: kept) :: back := by
  obtain ⟨unbroken, starts, ends⟩ := isLine
  have complete : Text.IsComplete before := starts
  have inline : ∀ comment, '\n' ∉ comment → '\n' ∉ line ++ " # ".toList ++ comment := by
    intro comment absent
    simp [unbroken, absent]
  rcases ends with rfl | ⟨noReturn, back, rfl⟩
  · refine ⟨[], ?_, fun comment absent => ⟨' ' :: comment, ?_⟩⟩
    · rw [List.append_nil, complete.lines_append, Text.lines_of_not_mem unbroken filled]
    · rw [List.append_nil, complete.lines_append,
        Text.lines_of_not_mem (inline comment absent) (by simp)]
      simp
  · have kept : (Text.dropReturn line.reverse).reverse = line := by
      unfold Text.dropReturn
      split
      · rename_i reversed shape
        rw [← List.head?_reverse, shape] at noReturn
        exact absurd rfl noReturn
      · exact List.reverse_reverse line
    refine ⟨Text.lines back, ?_, fun comment absent => ?_⟩
    · rw [List.append_assoc, complete.lines_append, Text.lines_append_line unbroken, kept]
    · obtain ⟨rest, shape⟩ := Text.exists_dropReturn (by decide : ' ' ≠ '\r')
        (line ++ [' ', '#']) comment
      refine ⟨' ' :: rest, ?_⟩
      have layout : line ++ " # ".toList ++ comment =
          line ++ [' ', '#'] ++ ' ' :: comment := by simp
      rw [List.append_assoc, complete.lines_append,
        Text.lines_append_line (inline comment absent), layout, shape]
      simp

/-- The block that is open behind a text. -/
def openBlock (text : List Char) : Option OpenBlock :=
  (progress 1 none (Text.lines text)).block

/-- A comment behind a line that ends a statement is not noticed.  Behind any other line
that does not end inside of a string literal, it makes reading fail. -/
theorem read_append_comment (schemaVersion : String) {before line after comment : List Char}
    (isLine : IsLine before line after) (solid : IsSolid line) (unbroken : '\n' ∉ comment) :
    (endsStatement (openBlock before) line = true →
      read schemaVersion (before ++ (line ++ " # ".toList ++ comment) ++ after) =
        read schemaVersion (before ++ line ++ after)) ∧
    (endsStatement (openBlock before) line = false → ¬EndsInLiteral (openBlock before) line →
      ∃ error,
        read schemaVersion (before ++ (line ++ " # ".toList ++ comment) ++ after) =
          .error error) := by
  have filled : line ≠ [] := by
    rintro rfl
    exact solid.1 rfl
  obtain ⟨back, lines, commented⟩ := isLine.lines filled
  obtain ⟨kept, linesToo⟩ := commented comment unbroken
  constructor
  · intro ends
    have same := advance_append_of_endsStatement solid ends
      (1 + (Text.lines before).length) kept
    rw [openBlock] at same
    unfold read scan
    rw [lines, linesToo, scanFrom_append, scanFrom_append, scanFrom_cons, scanFrom_cons, same]
  · intro stays outside
    cases outcome : read schemaVersion
        (before ++ (line ++ " # ".toList ++ comment) ++ after) with
    | error error => exact ⟨error, rfl⟩
    | ok model =>
        -- The statement of the line would be read, although its comment is in no literal.
        exfalso
        obtain ⟨final, ⟨statements, scanned, applied⟩, _⟩ := read_eq_ok_iff.mp outcome
        rw [linesToo, scanFrom_append] at scanned
        obtain ⟨later, scannedLater, rfl⟩ := map_eq_ok_iff.mp scanned
        rw [scanFrom_cons] at scannedLater
        obtain ⟨remark, isRemark, starts⟩ := startsWith_advance_append solid stays
          (1 + (Text.lines before).length) kept
        obtain ⟨statement, member, more, text⟩ := starts.exists_statement scannedLater
        obtain ⟨_, _, appliedText⟩ :=
          exists_applyText applied (List.mem_append_right _ member)
        have keyword : HasKeyword (openBlock before) :=
          hasKeyword_progress (by simp [HasKeyword]) 1 (Text.lines before)
        have condition : startsCondition statement.text = true := by
          rw [← text, List.append_assoc, (isRemark.append more).startsCondition_append]
          exact startsCondition_textThrough keyword stays
        obtain ⟨condition, read⟩ := ofText_of_applyText appliedText condition
        rw [← text] at read
        exact outside (behind_ne_of_remark isRemark read)

/-- A comment with a brace and a quote behind the last line of a block, and one behind the
line in front of it. -/
theorem read_append_comment_closing :
    read "1.1" "condition c(a: int) \x7b\n  a > 1\n\x7d # \x7b or '\ntype user".toList =
        read "1.1" "condition c(a: int) \x7b\n  a > 1\n\x7d\ntype user".toList ∧
      ∃ error,
        read "1.1" "condition c(a: int) \x7b\n  a > 1 # \x7b or '\n\x7d\ntype user".toList =
          .error error := by
  have inline : '\n' ∉ "\x7b or '".toList := by decide
  have last : IsLine "condition c(a: int) \x7b\n  a > 1\n".toList ['\x7d']
      "\ntype user".toList :=
    ⟨by decide, .inr ⟨"condition c(a: int) \x7b\n  a > 1".toList, by decide⟩,
      .inr ⟨by decide, "type user".toList, rfl⟩⟩
  have inner : IsLine "condition c(a: int) \x7b\n".toList "  a > 1".toList
      "\n\x7d\ntype user".toList :=
    ⟨by decide, .inr ⟨"condition c(a: int) \x7b".toList, by decide⟩,
      .inr ⟨by decide, "\x7d\ntype user".toList, rfl⟩⟩
  have closing := (read_append_comment "1.1" last (by decide) inline).1 (by decide +kernel)
  have refused := (read_append_comment "1.1" inner (by decide) inline).2 (by decide +kernel)
    (by decide +kernel)
  exact ⟨by simpa using closing, by simpa using refused⟩

/-- A comment behind the line that opens a block makes reading fail. -/
theorem read_append_comment_opening :
    IsLine [] "condition c(a: int) \x7b".toList "\n  a > 1\n\x7d".toList ∧
      IsSolid "condition c(a: int) \x7b".toList ∧
      ¬EndsInLiteral none "condition c(a: int) \x7b".toList ∧
      read "1.1" "condition c(a: int) \x7b\n  a > 1\n\x7d".toList =
        .ok {
          schemaVersion := "1.1"
          types := []
          conditions := [{
            name := "c"
            parameters := [{ name := "a", type := .int }]
            expression := "a > 1" }] } ∧
      read "1.1" "condition c(a: int) \x7b # limit\n  a > 1\n\x7d".toList =
        .error {
          line := 1
          fault := .condition (.expression "c" (.malformed (.unexpectedCharacter '#'))) } := by
  have isLine : IsLine [] "condition c(a: int) \x7b".toList "\n  a > 1\n\x7d".toList :=
    ⟨by decide, .inl rfl, .inr ⟨by decide, "  a > 1\n\x7d".toList, rfl⟩⟩
  exact ⟨isLine, by decide, by decide +kernel, by decide +kernel, by decide +kernel⟩

end Rebac.Dsl
