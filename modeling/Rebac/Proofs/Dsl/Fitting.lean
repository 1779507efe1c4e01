import Rebac.Proofs.Dsl.Block

/-!
# Conditions that are read back fit their blocks

Suppose that a written condition is read back at its place.  The block that is
found then ends neither before nor behind the brace that was written for it:
the text of a shorter one could not hold the expression, and in that of a longer
one the expression would have to be followed by two braces.  No line was dropped
either, since a comment in the expression would be one in the block.
-/

namespace Rebac.Dsl

/-- Whether no line of a text looks like a comment.  The flag says whether only
blanks were read since the last line break. -/
def isCommentFree : Bool → List Char → Bool
  | _, [] => true
  | fresh, character :: rest =>
      if character = '\n' then isCommentFree true rest
      else if fresh && character = '#' then false
      else isCommentFree (fresh && Text.isBlank character) rest

theorem isCommentFree_of_append {text rest : List Char} {fresh : Bool}
    (free : isCommentFree fresh (text ++ rest) = true) :
    isCommentFree fresh text = true := by
  induction text generalizing fresh with
  | nil => rfl
  | cons character text induction =>
      rw [List.cons_append] at free
      unfold isCommentFree at free ⊢
      split
      · rename_i newline
        rw [if_pos newline] at free
        exact induction free
      · rename_i inline
        rw [if_neg inline] at free
        split
        · rename_i comment
          rw [if_pos comment] at free
          exact free
        · rename_i noComment
          rw [if_neg noComment] at free
          exact induction free

theorem isCommentFree_blank_append {blanks : List Char} (blank : Text.AllBlank blanks)
    (text : List Char) : isCommentFree true (blanks ++ text) = isCommentFree true text := by
  induction blanks with
  | nil => rfl
  | cons character blanks induction =>
      have headBlank : Text.isBlank character = true := blank character (by simp)
      have noHash : character ≠ '#' := by
        rintro rfl
        exact absurd headBlank (by decide)
      have tail := induction fun other member => blank other (by simp [member])
      rw [List.cons_append, isCommentFree]
      simp [noHash, headBlank, tail]

private theorem isCommentFree_of_splitOn {text line : List Char}
    {lines : List (List Char)} (split : text.splitOn '\n' = line :: lines) (fresh : Bool) :
    isCommentFree fresh text =
      (!(fresh && startsComment (Text.trim line)) &&
        lines.all fun line => !startsComment (Text.trim line)) := by
  induction text generalizing line lines fresh with
  | nil =>
      have empty : startsComment (Text.trim []) = false := rfl
      obtain ⟨rfl, rfl⟩ : [] = line ∧ [] = lines := by simpa using split
      simp [isCommentFree, empty]
  | cons character rest induction =>
      obtain ⟨first, others, shape⟩ :=
        List.exists_cons_of_ne_nil (List.splitOn_ne_nil '\n' rest)
      rw [List.splitOn_cons_eq_if_modifyHead, shape] at split
      rw [isCommentFree]
      by_cases newline : character = '\n'
      · have empty : startsComment (Text.trim []) = false := rfl
        obtain ⟨rfl, rfl⟩ : [] = line ∧ first :: others = lines := by
          simpa [newline] using split
        rw [if_pos newline, induction shape true]
        simp [empty]
      · obtain ⟨rfl, rfl⟩ : character :: first = line ∧ others = lines := by
          simpa [newline] using split
        rw [if_neg newline, induction shape, startsComment_trim_cons]
        cases blank : Text.isBlank character with
        | true =>
            have noHash : character ≠ '#' := by
              rintro rfl
              exact absurd blank (by decide)
            simp [noHash]
        | false => by_cases hash : character = '#' <;> simp [hash]

theorem isCommentFree_eq_all (text : List Char) :
    isCommentFree true text =
      (text.splitOn '\n').all fun line => !startsComment (Text.trim line) := by
  obtain ⟨line, lines, split⟩ :=
    List.exists_cons_of_ne_nil (List.splitOn_ne_nil '\n' text)
  rw [isCommentFree_of_splitOn split, split, List.all_cons, Bool.true_and]

theorem not_comment_of_append {start rest : List Char} (unbroken : '\n' ∉ start ++ rest)
    (noComment : startsComment (Text.trim (start ++ rest)) = false) :
    startsComment (Text.trim start) = false := by
  have startUnbroken : '\n' ∉ start := fun member =>
    unbroken (List.mem_append_left rest member)
  have whole : isCommentFree true (start ++ rest) = true := by
    rw [isCommentFree_eq_all, List.splitOn_eq_singleton unbroken]
    simp [noComment]
  have front := isCommentFree_of_append whole
  rw [isCommentFree_eq_all, List.splitOn_eq_singleton startUnbroken] at front
  simpa using front

theorem splitOn_blockText {lines : List (List Char)}
    (unbroken : ∀ line ∈ lines, '\n' ∉ line) :
    (blockText lines).splitOn '\n' = [] :: lines := by
  induction lines with
  | nil => rfl
  | cons line lines induction =>
      have head := unbroken line (by simp)
      have tail := induction fun other member => unbroken other (by simp [member])
      have shape : blockText (line :: lines) = '\n' :: (line ++ blockText lines) := rfl
      rw [shape, List.splitOn_cons_eq_if_modifyHead,
        Text.splitOn_append_of_not_mem head, tail]
      simp

/-- The nesting of an open block. -/
structure Braces.IsOpen (braces : Braces) : Prop where
  opened : braces.opened = true
  deep : 1 ≤ braces.depth

theorem isOpen_of_stepBraces {quoting after : Quoting} {braces next : Braces}
    {character : Char} (isOpen : braces.IsOpen)
    (step : stepBraces quoting braces character = some (after, next)) : next.IsOpen := by
  obtain ⟨opened, deep⟩ := isOpen
  cases quoting with
  | escaped quote =>
      obtain ⟨_, rfl⟩ := by simpa [stepBraces] using step
      exact ⟨opened, deep⟩
  | inside quote =>
      simp only [stepBraces] at step
      split at step
      · obtain ⟨_, rfl⟩ := by simpa using step
        exact ⟨opened, deep⟩
      · split at step
        · obtain ⟨_, rfl⟩ := by simpa using step
          exact ⟨opened, deep⟩
        · obtain ⟨_, rfl⟩ := by simpa using step
          exact ⟨opened, deep⟩
  | outside =>
      simp only [stepBraces] at step
      split at step
      · obtain ⟨_, rfl⟩ := by simpa using step
        exact ⟨opened, deep⟩
      · split at step
        · obtain ⟨_, rfl⟩ := by simpa using step
          exact ⟨rfl, by simp only [Braces.enter]; omega⟩
        · split at step
          · split at step
            · cases step
            · rename_i stays
              obtain ⟨_, rfl⟩ := by simpa using step
              have above : ¬ braces.leave.depth ≤ 0 := by
                simpa [Braces.isClosed, Braces.leave, opened] using stays
              exact ⟨opened, by omega⟩
          · obtain ⟨_, rfl⟩ := by simpa using step
            exact ⟨opened, deep⟩

theorem isOpen_of_bracesThrough? {text : List Char} {fresh : Bool} {quoting : Quoting}
    {braces behind : Braces} (isOpen : braces.IsOpen)
    (through : bracesThrough? fresh quoting braces text = some behind) :
    behind.IsOpen := by
  induction text generalizing fresh quoting braces with
  | nil =>
      obtain rfl : braces = behind := by simpa [bracesThrough?] using through
      exact isOpen
  | cons character rest induction =>
      rw [bracesThrough?] at through
      split at through
      · exact induction isOpen through
      · split at through
        · cases through
        · split at through
          · rename_i step
            exact induction (isOpen_of_stepBraces isOpen step) through
          · cases through

theorem eq_entered_of_isClosed {braces : Braces} (isOpen : braces.IsOpen)
    (closed : braces.leave.isClosed = true) : braces = Braces.entered := by
  obtain ⟨depth, opened⟩ := braces
  obtain rfl : opened = true := isOpen.opened
  have deep : 1 ≤ depth := isOpen.deep
  have shallow : depth - 1 ≤ 0 := of_decide_eq_true closed
  obtain rfl : depth = 1 := by omega
  rfl

theorem last_of_countBraces {line through tail : List Char} {quoting : Quoting}
    {braces : Braces} (closed : countBraces quoting braces line = .closed through tail) :
    '\x7d' ∈ through := by
  induction line generalizing quoting braces through with
  | nil => cases quoting <;> cases closed
  | cons character line induction =>
      rw [countBraces_cons] at closed
      split at closed
      · rename_i quoting braces step
        cases inner : countBraces quoting braces line with
        | pending behind => simp [inner, LineEnd.behind] at closed
        | closed front back =>
            obtain ⟨rfl, rfl⟩ : character :: front = through ∧ back = tail := by
              simpa [inner, LineEnd.behind] using closed
            exact List.mem_cons_of_mem _ (induction inner)
      · rename_i step
        obtain ⟨rfl, rfl⟩ : [character] = through ∧ line = tail := by
          simpa using closed
        have brace : character = '\x7d' := by
          cases quoting with
          | escaped quote => cases step
          | inside quote =>
              simp only [stepBraces] at step
              split at step
              · cases step
              · split at step <;> cases step
          | outside =>
              simp only [stepBraces] at step
              split at step
              · cases step
              · split at step
                · cases step
                · split at step
                  · assumption
                  · cases step
        simp [brace]

theorem mem_closingLine {through tail : List Char} {character : Char}
    (member : character ∈ through) : character ∈ closingLine through tail := by
  simp only [closingLine]
  split
  · exact member
  · exact List.mem_append_left tail member

theorem exists_closingLine (through tail : List Char) :
    ∃ rest, through ++ tail = closingLine through tail ++ rest := by
  simp only [closingLine]
  split
  · exact ⟨tail, rfl⟩
  · exact ⟨[], (List.append_nil _).symm⟩

theorem append_of_block {blanks before expression left right : List Char}
    (tight : Text.IsTight expression) (filled : expression ≠ [])
    (blank : Text.AllBlank blanks) (beforeBlank : Text.AllBlank before)
    (same : blanks ++ (expression ++ left) = before ++ (expression ++ right)) :
    left = right := by
  obtain ⟨first, rest, rfl⟩ := List.exists_cons_of_ne_nil filled
  have solid : Text.isBlank first = false := tight.head first rfl
  have trimmed := congrArg Text.trimStart same
  rw [Text.trimStart_blank_append blank, Text.trimStart_blank_append beforeBlank] at trimmed
  have stop : ∀ others, Text.trimStart (first :: rest ++ others) = first :: rest ++ others :=
    fun others => List.dropWhile_cons_of_neg (by simp [solid])
  rw [stop, stop] at trimmed
  exact List.append_cancel_left trimmed

theorem not_second_brace {after remark rest : List Char} (afterBlank : Text.AllBlank after)
    (remarkBlank : Text.AllBlank remark) (second : '\x7d' ∈ rest) :
    '\n' :: '\x7d' :: rest ≠ after ++ '\x7d' :: remark := by
  have solid : Text.isBlank '\x7d' ≠ true := by decide
  intro same
  cases after with
  | nil => simp at same
  | cons newline after =>
      obtain ⟨rfl, behind⟩ := List.cons.inj same
      cases after with
      | nil =>
          obtain ⟨_, rfl⟩ := List.cons.inj (behind : '\x7d' :: rest = '\x7d' :: remark)
          exact solid (remarkBlank _ second)
      | cons brace after =>
          obtain ⟨rfl, _⟩ := List.cons.inj
            (behind : '\x7d' :: rest = brace :: (after ++ '\x7d' :: remark))
          exact solid (afterBlank _ (by simp))

theorem blockText_append (front back : List (List Char)) :
    blockText (front ++ back) = blockText front ++ blockText back :=
  List.flatMap_append

theorem keptLines_append (front back : List (List Char)) :
    keptLines (front ++ back) = keptLines front ++ keptLines back :=
  List.filter_append ..

section

/- The block that was found: some lines in front, and one that closes it. -/
variable {condition : Condition} {front later lines : List (List Char)}
  {line through tail before after remark : List Char}

/-- The expression of a block looks nowhere like a comment. -/
theorem isCommentFree_of_block {expression : List Char}
    (unbroken : ∀ other ∈ front, '\n' ∉ other) (lineUnbroken : '\n' ∉ through ++ tail)
    (noComment : startsComment (Text.trim (through ++ tail)) = false)
    (beforeBlank : Text.AllBlank before)
    (block : blockText (keptLines front) ++ '\n' :: closingLine through tail =
      before ++ expression ++ after ++ '\x7d' :: remark) :
    isCommentFree true expression = true := by
  obtain ⟨rest, closing⟩ := exists_closingLine through tail
  have whole : blockText (keptLines front) ++ '\n' :: closingLine through tail =
      blockText (keptLines front ++ [closingLine through tail]) := by
    rw [blockText_append]
    simp [blockText]
  have allUnbroken : ∀ other ∈ keptLines front ++ [closingLine through tail],
      '\n' ∉ other := by
    intro other member
    rcases List.mem_append.mp member with inFront | last
    · exact unbroken other (List.mem_filter.mp inFront).1
    · obtain rfl := List.mem_singleton.mp last
      intro newline
      rw [closing] at lineUnbroken
      exact lineUnbroken (List.mem_append_left rest newline)
  have free : isCommentFree true
      (blockText (keptLines front ++ [closingLine through tail])) = true := by
    rw [isCommentFree_eq_all, splitOn_blockText allUnbroken, List.all_eq_true]
    intro other member
    rcases List.mem_cons.mp member with rfl | member
    · rfl
    · rcases List.mem_append.mp member with inFront | last
      · exact (List.mem_filter.mp inFront).2
      · obtain rfl := List.mem_singleton.mp last
        rw [closing] at lineUnbroken noComment
        rw [not_comment_of_append lineUnbroken noComment, Bool.not_false]
  rw [← whole, block, List.append_assoc, List.append_assoc,
    isCommentFree_blank_append beforeBlank] at free
  exact isCommentFree_of_append free

theorem keptLines_bodyLines (free : isCommentFree true condition.expression.toList = true) :
    keptLines condition.bodyLines = condition.bodyLines := by
  have blank : Text.AllBlank "  ".toList := by decide
  rw [← isCommentFree_blank_append blank, isCommentFree_eq_all, List.all_eq_true] at free
  exact List.filter_eq_self.mpr free

/-- A block that ends within the expression does not hold it. -/
theorem not_closed_within (tight : Text.IsTight condition.expression.toList)
    (filled : condition.expression.toList ≠ []) (beforeBlank : Text.AllBlank before)
    (block : blockText front ++ '\n' :: closingLine through tail =
      before ++ condition.expression.toList ++ after ++ '\x7d' :: remark) :
    condition.bodyLines ≠ front ++ (through ++ tail) :: later := by
  intro shorter
  obtain ⟨rest, closing⟩ := exists_closingLine through tail
  have blank : Text.AllBlank "\n  ".toList := by decide
  have same : "\n  ".toList ++ (condition.expression.toList ++ []) =
      before ++ (condition.expression.toList ++
        (after ++ '\x7d' :: remark ++ (rest ++ blockText later))) := by
    calc
      "\n  ".toList ++ (condition.expression.toList ++ []) =
          blockText condition.bodyLines := by
        rw [blockText_bodyLines, List.append_nil]
      _ = (blockText front ++ '\n' :: closingLine through tail) ++
          (rest ++ blockText later) := by
        rw [shorter, blockText_append, closing]
        simp [blockText]
      _ = before ++ (condition.expression.toList ++
          (after ++ '\x7d' :: remark ++ (rest ++ blockText later))) := by
        rw [block]
        simp only [List.append_assoc]
  have nothing := append_of_block tight filled blank beforeBlank same
  simp at nothing

theorem not_closed_behind (tight : Text.IsTight condition.expression.toList)
    (filled : condition.expression.toList ≠ []) (beforeBlank : Text.AllBlank before)
    (afterBlank : Text.AllBlank after) (remarkBlank : Text.AllBlank remark)
    (kept : keptLines condition.bodyLines = condition.bodyLines)
    (last : '\x7d' ∈ through)
    (block : blockText (keptLines front) ++ '\n' :: closingLine through tail =
      before ++ condition.expression.toList ++ after ++ '\x7d' :: remark) :
    front ≠ condition.bodyLines ++ ['\x7d'] :: later := by
  rintro rfl
  have brace : keptLines (['\x7d'] :: later) = ['\x7d'] :: keptLines later := rfl
  have blank : Text.AllBlank "\n  ".toList := by decide
  have same : "\n  ".toList ++ (condition.expression.toList ++
      '\n' :: '\x7d' :: (blockText (keptLines later) ++
        '\n' :: closingLine through tail)) =
      before ++ (condition.expression.toList ++ (after ++ '\x7d' :: remark)) := by
    calc
      _ = blockText (keptLines (condition.bodyLines ++ ['\x7d'] :: later)) ++
          '\n' :: closingLine through tail := by
        rw [keptLines_append, kept, brace, blockText_append, blockText_bodyLines]
        simp [blockText]
      _ = before ++ (condition.expression.toList ++ (after ++ '\x7d' :: remark)) := by
        rw [block]
        simp only [List.append_assoc]
  have behind := append_of_block tight filled blank beforeBlank same
  refine not_second_brace afterBlank remarkBlank ?_ behind
  exact List.mem_append_right _ (List.mem_cons_of_mem _ (mem_closingLine last))

/-- A block that holds the expression ends with the written brace. -/
theorem eq_bodyLines_of_block (tight : Text.IsTight condition.expression.toList)
    (filled : condition.expression.toList ≠ []) (beforeBlank : Text.AllBlank before)
    (afterBlank : Text.AllBlank after) (remarkBlank : Text.AllBlank remark)
    (kept : keptLines condition.bodyLines = condition.bodyLines)
    (last : '\x7d' ∈ through)
    (block : blockText (keptLines front) ++ '\n' :: closingLine through tail =
      before ++ condition.expression.toList ++ after ++ '\x7d' :: remark)
    (cut : condition.bodyLines ++ ['\x7d'] :: lines =
      front ++ (through ++ tail) :: later) :
    front = condition.bodyLines ∧ through ++ tail = ['\x7d'] := by
  rcases List.append_eq_append_iff.mp cut with
    ⟨more, longer, rest⟩ | ⟨more, shorter, rest⟩
  · cases more with
    | nil => exact ⟨by simpa using longer, (List.cons.inj rest).1.symm⟩
    | cons brace more =>
        obtain rfl := (List.cons.inj rest).1
        exact absurd longer (not_closed_behind tight filled beforeBlank afterBlank
          remarkBlank kept last block)
  · cases more with
    | nil => exact ⟨by simpa using shorter.symm, (List.cons.inj rest).1⟩
    | cons within more =>
        obtain rfl := (List.cons.inj rest).1
        have keptFront : keptLines front = front := by
          rw [shorter] at kept
          exact List.filter_eq_self.mpr fun other member =>
            List.filter_eq_self.mp kept other (List.mem_append_left _ member)
        rw [keptFront] at block
        exact absurd shorter (not_closed_within tight filled beforeBlank block)

end

variable {condition : Condition} {number : Nat} {lines : List (List Char)}
  {draft next final : Draft}

/-- An expression that the written brace closes fits its block. -/
theorem fitsBlock_of_closed {braces : Braces} {through tail : List Char}
    (behind : bracesBehind? Braces.entered condition.bodyLines = some braces)
    (closed : countBraces .outside braces ['\x7d'] = .closed through tail) :
    FitsBlock condition.expression.toList := by
  rw [bracesBehind?_bodyLines] at behind
  have isOpen : braces.IsOpen := by
    rw [← bracesThrough?_eq_bracesBehind?] at behind
    exact isOpen_of_bracesThrough? ⟨rfl, Int.le_refl 1⟩ behind
  have isClosed : braces.leave.isClosed = true := by
    cases deep : braces.leave.isClosed with
    | true => rfl
    | false => simp [countBraces, Expression.isQuote, deep, LineEnd.behind] at closed
  rw [FitsBlock, behind, eq_entered_of_isClosed isOpen isClosed]

theorem eq_expression_of_prefix {expression : List Char} {conditions : List Condition}
    (found : (draft.withCondition
      { condition with expression := String.ofList expression }).model.conditions <+:
        conditions)
    (kept : draft.model.conditions ++ [condition] <+: conditions) :
    expression = condition.expression.toList := by
  have same := List.prefix_of_prefix_length_le found kept (by simp [Draft.withCondition])
  have equal := same.eq_of_length (by simp [Draft.withCondition])
  have last := List.append_cancel_left equal
  have name := congrArg Condition.expression (List.cons.inj last).1
  rw [← name, String.toList_ofList]

/-- A written condition that is read back at its place fits its block. -/
theorem fitsBlock_of_reads (written : condition.IsWellFormed)
    (unbroken : ∀ line ∈ lines, '\n' ∉ line)
    (reads : Reads number none (condition.writtenLines ++ lines) draft final)
    (kept : draft.model.conditions ++ [condition] <+: final.model.conditions) :
    FitsBlock condition.expression.toList := by
  rw [Condition.writtenLines_append, reads_headText written] at reads
  obtain ⟨front, line, later, through, tail, braces, next, _, cut, behind, noComment,
    closed, applied, rest⟩ := exists_closing reads
  rw [List.reverse_reverse, List.append_assoc,
    applyText_headText_eq_ok_iff written] at applied
  obtain ⟨expression, block, _, _, rfl⟩ := applied
  obtain rfl : expression = condition.expression.toList :=
    eq_expression_of_prefix (conditions_prefix_of_reads rest) kept
  obtain ⟨tight, before, after, remark, beforeBlank, afterBlank, remarkBlank, shape⟩ :=
    Condition.blockExpression?_eq_some_iff.mp block
  obtain rfl : line = through ++ tail := append_of_countBraces closed
  have filled : condition.expression.toList ≠ [] := written.filled
  have allUnbroken : ∀ other ∈ front ++ (through ++ tail) :: later, '\n' ∉ other := by
    rw [← cut]
    intro other member
    rcases List.mem_append.mp member with inBody | inRest
    · exact Text.not_mem_of_mem_splitOn inBody
    · rcases List.mem_cons.mp inRest with rfl | inLines
      · decide
      · exact unbroken other inLines
  have free := isCommentFree_of_block
    (fun other member => allUnbroken other (List.mem_append_left _ member))
    (allUnbroken _ (by simp)) noComment beforeBlank shape
  have whole := keptLines_bodyLines free
  obtain ⟨rfl, brace⟩ := eq_bodyLines_of_block tight filled beforeBlank afterBlank
    remarkBlank whole (last_of_countBraces closed) shape cut
  rw [whole] at behind
  rw [brace] at closed
  exact fitsBlock_of_closed behind closed

end Rebac.Dsl
