import Rebac.Proofs.Text.Trim
import Rebac.Text.Lines

/-!
# Lines of a composed text

A text that ends with a line break contributes its own lines, whatever
follows it.  Texts without carriage returns are cut at their line feeds only.  The
first character that is not blank starts the first line that is not blank.  The first
lines of a text are a text of their own.
-/

namespace Rebac.Text

private theorem dropReturn_of_not_mem {reversed : List Char}
    (noReturn : '\r' ∉ reversed) : dropReturn reversed = reversed := by
  unfold dropReturn
  split
  · exact absurd List.mem_cons_self noReturn
  · rfl

theorem dropReturn_cons {character : Char} (other : character ≠ '\r')
    (reversed : List Char) : dropReturn (character :: reversed) = character :: reversed := by
  unfold dropReturn
  split
  · rename_i shape
    exact absurd (List.cons.inj shape).1 other
  · rfl

private theorem linesFrom_append_break {reversed text : List Char}
    (unbroken : '\n' ∉ reversed) (readNoReturn : '\r' ∉ reversed)
    (noReturn : '\r' ∉ text) (rest : List Char) :
    linesFrom reversed (text ++ '\n' :: rest) =
      (reversed.reverse ++ text).splitOn '\n' ++ lines rest := by
  induction text generalizing reversed with
  | nil =>
      have single : '\n' ∉ reversed.reverse := by simpa using unbroken
      simp [linesFrom, dropReturn_of_not_mem readNoReturn,
        List.splitOn_eq_singleton single, lines]
  | cons character text induction =>
      have tailNoReturn : '\r' ∉ text := List.not_mem_of_not_mem_cons noReturn
      by_cases ends : character = '\n'
      · subst character
        have single : '\n' ∉ reversed.reverse := by simpa using unbroken
        have rest' := induction (List.not_mem_nil : '\n' ∉ []) (by simp) tailNoReturn
        simp only [List.cons_append, linesFrom, rest', List.reverse_nil,
          List.nil_append, dropReturn_of_not_mem readNoReturn]
        rw [List.splitOn_append_cons_self_of_not_mem single]
        rfl
      · have headNoReturn : '\r' ≠ character := fun same =>
          noReturn (same ▸ List.mem_cons_self)
        have unbroken' : '\n' ∉ character :: reversed := by
          simp [unbroken, Ne.symm ends]
        have readNoReturn' : '\r' ∉ character :: reversed := by
          simp [readNoReturn, headNoReturn]
        have step := induction unbroken' readNoReturn' tailNoReturn
        rw [List.cons_append, linesFrom, step]
        · simp
        · exact ends

/-- A text before a line break contributes the parts between its line feeds. -/
theorem lines_append_break {text : List Char} (noReturn : '\r' ∉ text)
    (rest : List Char) :
    lines (text ++ '\n' :: rest) = text.splitOn '\n' ++ lines rest := by
  simpa [lines] using
    linesFrom_append_break (List.not_mem_nil : '\n' ∉ []) (by simp) noReturn rest

theorem lines_append_single {line : List Char} (noReturn : '\r' ∉ line)
    (unbroken : '\n' ∉ line) (rest : List Char) :
    lines (line ++ '\n' :: rest) = line :: lines rest := by
  rw [lines_append_break noReturn, List.splitOn_eq_singleton unbroken]
  rfl

private theorem linesFrom_line_append {line : List Char} (unbroken : '\n' ∉ line)
    (reversed rest : List Char) :
    linesFrom reversed (line ++ rest) = linesFrom (line.reverse ++ reversed) rest := by
  induction line generalizing reversed with
  | nil => rfl
  | cons character line induction =>
      have noBreak : character ≠ '\n' := fun same => unbroken (same ▸ List.mem_cons_self)
      rw [List.cons_append, linesFrom, induction (List.not_mem_of_not_mem_cons unbroken)]
      · simp
      · exact noBreak

theorem lines_of_not_mem {line : List Char} (unbroken : '\n' ∉ line) (filled : line ≠ []) :
    lines line = [line] := by
  have read := linesFrom_line_append unbroken [] []
  rw [List.append_nil, List.append_nil] at read
  rw [lines, read, linesFrom]
  simp [filled]

theorem lines_append_line {line : List Char} (unbroken : '\n' ∉ line) (rest : List Char) :
    lines (line ++ '\n' :: rest) = (dropReturn line.reverse).reverse :: lines rest := by
  rw [lines, linesFrom_line_append unbroken, List.append_nil, linesFrom]
  rfl

private theorem linesFrom_append_feed (reversed text rest : List Char) :
    linesFrom reversed (text ++ '\n' :: rest) =
      linesFrom reversed (text ++ ['\n']) ++ lines rest := by
  induction text generalizing reversed with
  | nil => simp [linesFrom, lines]
  | cons character text induction =>
      by_cases ends : character = '\n'
      · subst ends
        simp only [List.cons_append, linesFrom, induction]
      · rw [List.cons_append, List.cons_append, linesFrom, linesFrom, induction]
        · exact ends
        · exact ends

/-- A text that ends with a line feed contributes its own lines, whatever follows it. -/
theorem lines_append_feed (text rest : List Char) :
    lines (text ++ '\n' :: rest) = lines (text ++ ['\n']) ++ lines rest :=
  linesFrom_append_feed [] text rest

/-- A text that ends where a line ends. -/
def IsComplete (text : List Char) : Prop :=
  text = [] ∨ ∃ front, text = front ++ ['\n']

theorem IsComplete.lines_append {text : List Char} (complete : IsComplete text)
    (rest : List Char) : lines (text ++ rest) = lines text ++ lines rest := by
  rcases complete with rfl | ⟨front, rfl⟩
  · rfl
  · rw [List.append_assoc, List.singleton_append, lines_append_feed]

theorem exists_isComplete (text : List Char) :
    ∃ front line, text = front ++ line ∧ IsComplete front ∧ '\n' ∉ line := by
  induction text with
  | nil => exact ⟨[], [], rfl, .inl rfl, List.not_mem_nil⟩
  | cons character text induction =>
      obtain ⟨front, line, rfl, rfl | ⟨inner, rfl⟩, unbroken⟩ := induction
      · by_cases ends : character = '\n'
        · exact ⟨['\n'], line, by simp [ends], .inr ⟨[], rfl⟩, unbroken⟩
        · exact ⟨[], character :: line, rfl, .inl rfl, by simp [unbroken, Ne.symm ends]⟩
      · exact ⟨character :: (inner ++ ['\n']), line, rfl, .inr ⟨character :: inner, rfl⟩,
          unbroken⟩

/-- A line break takes nothing from a line but a carriage return at its end. -/
theorem exists_dropReturn {solid : Char} (noReturn : solid ≠ '\r') (front back : List Char) :
    ∃ kept, (dropReturn (front ++ solid :: back).reverse).reverse = front ++ solid :: kept := by
  rw [List.reverse_append, List.reverse_cons, List.append_assoc, List.singleton_append]
  cases back.reverse with
  | nil =>
      refine ⟨[], ?_⟩
      rw [List.nil_append, dropReturn_cons noReturn]
      simp
  | cons last reversed =>
      unfold dropReturn
      split
      · rename_i later shape
        obtain ⟨_, rfl⟩ := List.cons.inj shape
        exact ⟨reversed.reverse, by simp⟩
      · exact ⟨(last :: reversed).reverse, by simp⟩

private theorem not_mem_of_mem_linesFrom {text reversed line : List Char}
    (unbroken : '\n' ∉ reversed) (member : line ∈ linesFrom reversed text) :
    '\n' ∉ line := by
  fun_induction linesFrom reversed text with
  | case1 => cases member
  | case2 reversed filled =>
      obtain rfl := List.mem_singleton.mp member
      simpa using unbroken
  | case3 reversed rest induction =>
      rcases List.mem_cons.mp member with rfl | later
      · have kept : ∀ character ∈ dropReturn reversed, character ∈ reversed := by
          intro character inKept
          unfold dropReturn at inKept
          split at inKept
          · exact List.mem_cons_of_mem _ inKept
          · exact inKept
        intro newline
        exact unbroken (kept _ (List.mem_reverse.mp newline))
      · exact induction List.not_mem_nil later
  | case4 reversed character rest inline induction =>
      refine induction ?_ member
      intro newline
      rcases List.mem_cons.mp newline with same | earlier
      · exact inline same.symm
      · exact unbroken earlier

theorem not_mem_of_mem_lines {text line : List Char} (member : line ∈ lines text) :
    '\n' ∉ line :=
  not_mem_of_mem_linesFrom List.not_mem_nil member

theorem exists_of_append_break {front rest line later : List Char} (unbroken : '\n' ∉ front)
    (split : front ++ rest = line ++ '\n' :: later) :
    ∃ inner, line = front ++ inner ∧ rest = inner ++ '\n' :: later := by
  rcases List.append_eq_append_iff.mp split with ⟨inner, rfl, behind⟩ | ⟨inner, rfl, behind⟩
  · exact ⟨inner, rfl, behind⟩
  · cases inner with
    | nil => exact ⟨[], by simp, behind.symm⟩
    | cons character inner =>
        obtain ⟨rfl, _⟩ := List.cons.inj behind
        exact absurd (by simp) unbroken

theorem not_mem_of_mem_splitOn {separator : Char} {text part : List Char}
    (member : part ∈ text.splitOn separator) : separator ∉ part := by
  induction text generalizing part with
  | nil =>
      obtain rfl : part = [] := by simpa using member
      simp
  | cons character text induction =>
      rw [List.splitOn_cons_eq_if_modifyHead] at member
      by_cases same : character = separator
      · rw [if_pos (by simpa using same)] at member
        rcases List.mem_cons.mp member with rfl | later
        · simp
        · exact induction later
      · rw [if_neg (by simpa using same)] at member
        obtain ⟨first, parts, split⟩ :=
          List.exists_cons_of_ne_nil (List.splitOn_ne_nil separator text)
        rw [split, List.modifyHead_cons] at member
        rcases List.mem_cons.mp member with rfl | later
        · have absent : separator ∉ first := induction (by simp [split])
          simp [absent, Ne.symm same]
        · exact induction (by simp [split, later])

theorem splitOn_append_of_not_mem {separator : Char} {before : List Char}
    (absent : separator ∉ before) (text : List Char) :
    (before ++ text).splitOn separator =
      (text.splitOn separator).modifyHead (before ++ ·) := by
  induction before with
  | nil =>
      obtain ⟨first, parts, split⟩ :=
        List.exists_cons_of_ne_nil (List.splitOn_ne_nil separator text)
      simp [split]
  | cons character before induction =>
      have different : (character == separator) = false := by
        rw [beq_eq_false_iff_ne]
        exact fun same => absent (same ▸ List.mem_cons_self)
      have rest := induction (List.not_mem_of_not_mem_cons absent)
      rw [List.cons_append, List.splitOn_cons_eq_if_modifyHead, different, rest]
      simp [Function.comp_def]

theorem exists_splitOn_append (separator : Char) (text : List Char) :
    ∃ front last, text.splitOn separator = front ++ [last] ∧
      ∀ after, separator ∉ after →
        (text ++ after).splitOn separator = front ++ [last ++ after] := by
  induction text with
  | nil => exact ⟨[], [], by simp, fun after absent => List.splitOn_eq_singleton absent⟩
  | cons character text induction =>
      obtain ⟨front, last, split, longer⟩ := induction
      by_cases same : character = separator
      · refine ⟨[] :: front, last, ?_, ?_⟩
        · simp [List.splitOn_cons_eq_if_modifyHead, same, split]
        · intro after absent
          simp [List.splitOn_cons_eq_if_modifyHead, same, longer after absent]
      · cases front with
        | nil =>
            refine ⟨[], character :: last, ?_, ?_⟩
            · simp [List.splitOn_cons_eq_if_modifyHead, same, split]
            · intro after absent
              simp [List.splitOn_cons_eq_if_modifyHead, same, longer after absent]
        | cons first front =>
            refine ⟨(character :: first) :: front, last, ?_, ?_⟩
            · simp [List.splitOn_cons_eq_if_modifyHead, same, split]
            · intro after absent
              simp [List.splitOn_cons_eq_if_modifyHead, same, longer after absent]

/-- The parts of a text, each behind a separator, make up the text behind one
separator. -/
theorem flatMap_splitOn (separator : Char) (text : List Char) :
    (text.splitOn separator).flatMap (separator :: ·) = separator :: text := by
  induction text with
  | nil => simp
  | cons character text induction =>
      obtain ⟨first, parts, split⟩ :=
        List.exists_cons_of_ne_nil (List.splitOn_ne_nil separator text)
      rw [split, List.flatMap_cons, List.cons_append, List.cons.injEq] at induction
      rw [List.splitOn_cons_eq_if_modifyHead, split]
      by_cases same : character = separator
      · subst character
        simp [List.flatMap_cons, induction.2]
      · simp [same, List.flatMap_cons, induction.2]

theorem mem_splitOn {text : List Char} {separator character : Char}
    (member : character ∈ text) :
    character = separator ∨ ∃ part ∈ text.splitOn separator, character ∈ part := by
  have inWhole : character ∈ (text.splitOn separator).flatMap (separator :: ·) := by
    rw [flatMap_splitOn]
    exact List.mem_cons_of_mem separator member
  obtain ⟨part, inParts, inPart⟩ := List.mem_flatMap.mp inWhole
  rcases List.mem_cons.mp inPart with same | inPart
  · exact .inl same
  · exact .inr ⟨part, inParts, inPart⟩

private theorem exists_linesFrom_solid {solid : Char} (filled : isBlank solid = false)
    (behind before rest : List Char) :
    ∃ tail later,
      linesFrom (behind ++ solid :: before) rest =
        (before.reverse ++ solid :: tail) :: later := by
  have noReturn : solid ≠ '\r' := by
    rintro rfl
    cases filled
  induction rest generalizing behind with
  | nil =>
      refine ⟨behind.reverse, [], ?_⟩
      simp [linesFrom]
  | cons character rest induction =>
      by_cases ends : character = '\n'
      · subst character
        cases behind with
        | nil =>
            refine ⟨[], lines rest, ?_⟩
            simp [linesFrom, lines, dropReturn_cons noReturn]
        | cons last behind =>
            by_cases returns : last = '\r'
            · subst last
              refine ⟨behind.reverse, lines rest, ?_⟩
              simp [linesFrom, lines, dropReturn]
            · refine ⟨(last :: behind).reverse, lines rest, ?_⟩
              simp [linesFrom, lines, dropReturn_cons returns]
      · have step := induction (character :: behind)
        rw [List.cons_append] at step
        rwa [linesFrom]
        exact ends

private theorem exists_linesFrom_blank {reversed blanks : List Char} {solid : Char}
    (read : AllBlank reversed) (blank : AllBlank blanks) (filled : isBlank solid = false)
    (rest : List Char) :
    ∃ front line later tail,
      linesFrom reversed (blanks ++ solid :: rest) = front ++ line :: later ∧
        (∀ other ∈ front, trim other = []) ∧ trimStart line = solid :: tail := by
  have solidLine : ∀ {text : List Char} (tail : List Char), AllBlank text →
      trimStart (text ++ solid :: tail) = solid :: tail := by
    intro text tail blank
    rw [trimStart_blank_append blank]
    exact List.dropWhile_cons_of_neg (by simp [filled])
  induction blanks generalizing reversed with
  | nil =>
      have noBreak : solid ≠ '\n' := by
        rintro rfl
        cases filled
      obtain ⟨tail, later, split⟩ := exists_linesFrom_solid filled [] reversed rest
      refine ⟨[], reversed.reverse ++ solid :: tail, later, tail, ?_, by simp,
        solidLine tail read.reverse⟩
      rw [List.nil_append, linesFrom]
      · exact split
      · exact noBreak
  | cons character blanks induction =>
      have first : isBlank character = true := blank character List.mem_cons_self
      have others : AllBlank blanks := fun other member =>
        blank other (List.mem_cons_of_mem _ member)
      by_cases ends : character = '\n'
      · subst character
        obtain ⟨front, line, later, tail, split, empty, start⟩ :=
          induction allBlank_nil others
        have dropped : AllBlank (dropReturn reversed).reverse := by
          apply AllBlank.reverse
          intro other member
          unfold dropReturn at member
          split at member
          · exact read other (List.mem_cons_of_mem _ member)
          · exact read other member
        refine ⟨(dropReturn reversed).reverse :: front, line, later, tail, ?_, ?_, start⟩
        · rw [List.cons_append, linesFrom, split, List.cons_append]
        · intro other member
          rcases List.mem_cons.mp member with rfl | inFront
          · exact trim_of_allBlank dropped
          · exact empty other inFront
      · have read' : AllBlank (character :: reversed) := by
          intro other member
          rcases List.mem_cons.mp member with rfl | earlier
          · exact first
          · exact read other earlier
        rw [List.cons_append, linesFrom]
        · exact induction read' others
        · exact ends

/-- The first solid character of a text starts the first line that is not blank. -/
theorem exists_lines_blank_append {blanks : List Char} (blank : AllBlank blanks)
    {solid : Char} (filled : isBlank solid = false) (rest : List Char) :
    ∃ front line later tail,
      lines (blanks ++ solid :: rest) = front ++ line :: later ∧
        (∀ other ∈ front, trim other = []) ∧ trimStart line = solid :: tail :=
  exists_linesFrom_blank allBlank_nil blank filled rest

/-- The first lines of a text, each with the line break that ends it. -/
def takeLines : Nat → List Char → List Char
  | 0, _ => []
  | _, [] => []
  | count + 1, '\n' :: rest => '\n' :: takeLines count rest
  | count + 1, character :: rest => character :: takeLines (count + 1) rest

private theorem linesFrom_takeLines (count : Nat) (reversed text : List Char) :
    linesFrom reversed (takeLines (count + 1) text) =
      (linesFrom reversed text).take (count + 1) := by
  fun_induction linesFrom reversed text generalizing count with
  | case1 reversed empty => simp [takeLines, linesFrom, empty]
  | case2 reversed filled => simp [takeLines, linesFrom, filled]
  | case3 reversed rest induction =>
      rw [takeLines, linesFrom, List.take_succ_cons]
      cases count with
      | zero => simp [takeLines, linesFrom]
      | succ count => rw [induction count]
  | case4 reversed character rest inline induction =>
      rw [takeLines, linesFrom, induction count]
      · exact inline
      · exact inline

theorem lines_takeLines (count : Nat) (text : List Char) :
    lines (takeLines count text) = (lines text).take count := by
  cases count with
  | zero => simp [takeLines, lines, linesFrom]
  | succ count => exact linesFrom_takeLines count [] text

end Rebac.Text
