import Rebac.Text.Blank

/-!
# Texts within blanks

A text is tight if no blank stands at either end of it.  Trimming yields the
only tight text that differs from its argument by blanks at the ends.
-/

namespace Rebac.Text

/-- A text that consists of blanks. -/
def AllBlank (text : List Char) : Prop :=
  ∀ character ∈ text, isBlank character = true

instance (text : List Char) : Decidable (AllBlank text) :=
  List.decidableBAll (fun character => isBlank character = true) text

/-- A text with no blank at either end. -/
structure IsTight (text : List Char) : Prop where
  head : ∀ character, text.head? = some character → isBlank character = false
  last : ∀ character, text.getLast? = some character → isBlank character = false

theorem allBlank_nil : AllBlank [] := by
  intro character member
  cases member

theorem allBlank_singleton {character : Char} (blank : isBlank character = true) :
    AllBlank [character] := by
  intro other member
  obtain rfl : other = character := by simpa using member
  exact blank

theorem AllBlank.append {left right : List Char} (leftBlank : AllBlank left)
    (rightBlank : AllBlank right) : AllBlank (left ++ right) := by
  intro character member
  rcases List.mem_append.mp member with inLeft | inRight
  · exact leftBlank character inLeft
  · exact rightBlank character inRight

theorem AllBlank.left {left right : List Char} (blank : AllBlank (left ++ right)) :
    AllBlank left := by
  intro character member
  exact blank character (List.mem_append_left _ member)

theorem AllBlank.right {left right : List Char} (blank : AllBlank (left ++ right)) :
    AllBlank right := by
  intro character member
  exact blank character (List.mem_append_right _ member)

theorem AllBlank.tail {character : Char} {text : List Char}
    (blank : AllBlank (character :: text)) : AllBlank text := by
  intro other member
  exact blank other (List.mem_cons_of_mem _ member)

theorem AllBlank.of_sublist {text kept : List Char} (blank : AllBlank text)
    (sublist : kept.Sublist text) : AllBlank kept := by
  intro character member
  exact blank character (sublist.subset member)

theorem AllBlank.reverse {text : List Char} (blank : AllBlank text) :
    AllBlank text.reverse := by
  intro character member
  exact blank character (List.mem_reverse.mp member)

theorem IsTight.reverse {text : List Char} (tight : IsTight text) :
    IsTight text.reverse := by
  constructor
  · intro character first
    rw [List.head?_reverse] at first
    exact tight.last character first
  · intro character final
    rw [List.getLast?_reverse] at final
    exact tight.head character final

theorem isTight_of_forall {text : List Char}
    (solid : ∀ character ∈ text, isBlank character = false) : IsTight text := by
  constructor
  · intro character first
    exact solid character (List.mem_of_head? first)
  · intro character final
    exact solid character (List.mem_of_getLast? final)

/-- Whatever stands between two solid characters makes a tight text. -/
theorem isTight_enclosed {opening closing : Char} (text : List Char)
    (solidOpening : isBlank opening = false)
    (solidClosing : isBlank closing = false) :
    IsTight (opening :: text ++ [closing]) := by
  constructor
  · intro character first
    obtain rfl : opening = character := by simpa using first
    exact solidOpening
  · intro character final
    rw [List.getLast?_append] at final
    obtain rfl : closing = character := by simpa using final
    exact solidClosing

theorem isTight_append {left right : List Char} (leftTight : IsTight left)
    (rightTight : IsTight right) (leftFilled : left ≠ [])
    (rightFilled : right ≠ []) (middle : List Char) :
    IsTight (left ++ middle ++ right) := by
  obtain ⟨first, left, rfl⟩ := List.exists_cons_of_ne_nil leftFilled
  constructor
  · intro character found
    exact leftTight.head character (by simpa using found)
  · intro character found
    have kept : (first :: left ++ middle ++ right).getLast? = right.getLast? := by
      rw [List.getLast?_append, List.getLast?_eq_some_getLast rightFilled]
      rfl
    rw [kept] at found
    exact rightTight.last character found

theorem isTight_intercalate (separator : List Char) {parts : List (List Char)}
    (nonempty : parts ≠ []) (tight : ∀ part ∈ parts, IsTight part ∧ part ≠ []) :
    IsTight (separator.intercalate parts) ∧ separator.intercalate parts ≠ [] := by
  induction parts with
  | nil => exact absurd rfl nonempty
  | cons part parts induction =>
      obtain ⟨headTight, headFilled⟩ := tight part (by simp)
      cases parts with
      | nil => simpa using ⟨headTight, headFilled⟩
      | cons second parts =>
          obtain ⟨tailTight, tailFilled⟩ := induction (by simp)
            fun other member => tight other (by simp [member])
          rw [List.intercalate_cons_cons]
          exact ⟨isTight_append headTight tailTight headFilled tailFilled separator,
            by simp [headFilled]⟩

theorem trimStart_blank_append {blanks : List Char} (blank : AllBlank blanks)
    (text : List Char) : trimStart (blanks ++ text) = trimStart text :=
  List.dropWhile_append_of_pos blank

theorem trimEnd_append_blank {blanks : List Char} (blank : AllBlank blanks)
    (text : List Char) : trimEnd (text ++ blanks) = trimEnd text := by
  unfold trimEnd
  rw [List.reverse_append, List.dropWhile_append_of_pos blank.reverse]

theorem trimStart_of_isTight {text : List Char} (tight : IsTight text) :
    trimStart text = text := by
  cases text with
  | nil => rfl
  | cons character rest =>
      have solid : isBlank character = false := tight.head character rfl
      exact List.dropWhile_cons_of_neg (by simp [solid])

theorem trimEnd_of_isTight {text : List Char} (tight : IsTight text) :
    trimEnd text = text := by
  have reversed : trimStart text.reverse = text.reverse :=
    trimStart_of_isTight tight.reverse
  unfold trimStart at reversed
  unfold trimEnd
  rw [reversed, List.reverse_reverse]

theorem trim_of_isTight {text : List Char} (tight : IsTight text) :
    trim text = text := by
  rw [trim, trimStart_of_isTight tight, trimEnd_of_isTight tight]

/-- Blanks around a tight text are what trimming removes. -/
theorem trim_surrounded {before text after : List Char}
    (beforeBlank : AllBlank before) (tight : IsTight text)
    (afterBlank : AllBlank after) : trim (before ++ text ++ after) = text := by
  rw [trim, List.append_assoc, trimStart_blank_append beforeBlank]
  cases text with
  | nil =>
      have nothing : trimStart ([] ++ after) = [] := by
        have skipped := trimStart_blank_append afterBlank []
        rw [List.append_nil] at skipped
        exact skipped
      rw [nothing]
      rfl
  | cons character rest =>
      have solid : isBlank character = false := tight.head character rfl
      have kept :
          trimStart (character :: rest ++ after) = character :: rest ++ after :=
        List.dropWhile_cons_of_neg (by simp [solid])
      rw [kept, trimEnd_append_blank afterBlank, trimEnd_of_isTight tight]

theorem trim_of_allBlank {text : List Char} (blank : AllBlank text) : trim text = [] := by
  have nothing : IsTight [] := ⟨by simp, by simp⟩
  simpa using trim_surrounded blank nothing allBlank_nil

theorem trim_blank_cons {character : Char} {text : List Char}
    (blank : isBlank character = true) (tight : IsTight text) :
    trim (character :: text) = text := by
  simpa using trim_surrounded (allBlank_singleton blank) tight allBlank_nil

theorem exists_trimStart (text : List Char) :
    ∃ blanks, AllBlank blanks ∧ text = blanks ++ trimStart text := by
  refine ⟨text.takeWhile isBlank, ?_, ?_⟩
  · intro character member
    exact List.all_eq_true.mp List.all_takeWhile character member
  · exact List.takeWhile_append_dropWhile.symm

theorem exists_trimEnd (text : List Char) :
    ∃ blanks, AllBlank blanks ∧ text = trimEnd text ++ blanks := by
  obtain ⟨blanks, blank, split⟩ := exists_trimStart text.reverse
  refine ⟨blanks.reverse, blank.reverse, ?_⟩
  have mirrored := congrArg List.reverse split
  rw [List.reverse_reverse, List.reverse_append] at mirrored
  exact mirrored

theorem head_trimStart {text : List Char} {character : Char}
    (first : (trimStart text).head? = some character) :
    isBlank character = false := by
  have solid := List.head?_dropWhile_not isBlank text
  unfold trimStart at first
  rw [first] at solid
  simpa using solid

theorem last_trimEnd {text : List Char} {character : Char}
    (final : (trimEnd text).getLast? = some character) :
    isBlank character = false := by
  unfold trimEnd at final
  rw [List.getLast?_reverse] at final
  exact head_trimStart final

theorem isTight_trim (text : List Char) : IsTight (trim text) := by
  constructor
  · intro character first
    obtain ⟨blanks, _, split⟩ := exists_trimEnd (trimStart text)
    have whole : (trimStart text).head? = some character := by
      rw [split, List.head?_append]
      unfold trim at first
      rw [first]
      rfl
    exact head_trimStart whole
  · intro character final
    exact last_trimEnd final

/-- Trimming removes blanks only, and only at the ends. -/
theorem exists_surroundings (text : List Char) :
    ∃ before after, AllBlank before ∧ AllBlank after ∧
      text = before ++ trim text ++ after := by
  obtain ⟨before, beforeBlank, beforeSplit⟩ := exists_trimStart text
  obtain ⟨after, afterBlank, afterSplit⟩ := exists_trimEnd (trimStart text)
  refine ⟨before, after, beforeBlank, afterBlank, ?_⟩
  calc
    text = before ++ trimStart text := beforeSplit
    _ = before ++ (trim text ++ after) := congrArg (before ++ ·) afterSplit
    _ = before ++ trim text ++ after := (List.append_assoc _ _ _).symm

theorem mem_trim {text : List Char} {character : Char} (member : character ∈ text) :
    isBlank character = true ∨ character ∈ trim text := by
  obtain ⟨before, after, beforeBlank, afterBlank, split⟩ := exists_surroundings text
  rw [split] at member
  rcases List.mem_append.mp member with inFront | inAfter
  · rcases List.mem_append.mp inFront with inBefore | inTrimmed
    · exact .inl (beforeBlank character inBefore)
    · exact .inr inTrimmed
  · exact .inl (afterBlank character inAfter)

theorem trim_between {before after : List Char} (beforeBlank : AllBlank before)
    (afterBlank : AllBlank after) (text : List Char) :
    trim (before ++ text ++ after) = trim text := by
  obtain ⟨start, finish, startBlank, finishBlank, split⟩ := exists_surroundings text
  have whole : before ++ text ++ after =
      (before ++ start) ++ trim text ++ (finish ++ after) :=
    calc
      before ++ text ++ after = before ++ (start ++ trim text ++ finish) ++ after := by
        rw [← split]
      _ = (before ++ start) ++ trim text ++ (finish ++ after) := by
        simp only [List.append_assoc]
  rw [whole, trim_surrounded (beforeBlank.append startBlank) (isTight_trim text)
    (finishBlank.append afterBlank)]

theorem trim_trimEnd (text : List Char) : trim (trimEnd text) = trim text := by
  obtain ⟨blanks, blank, split⟩ := exists_trimEnd text
  have same := trim_between allBlank_nil blank (trimEnd text)
  rw [List.nil_append, ← split] at same
  exact same.symm

theorem trim_eq_nil_iff {text : List Char} : trim text = [] ↔ AllBlank text := by
  constructor
  · intro nothing
    obtain ⟨before, after, beforeBlank, afterBlank, split⟩ := exists_surroundings text
    rw [split, nothing, List.append_nil]
    exact beforeBlank.append afterBlank
  · exact trim_of_allBlank

/-- Trimming the start stops at a solid character. -/
theorem trimStart_append {character : Char} (solid : isBlank character = false)
    (left right : List Char) :
    trimStart (left ++ character :: right) = trimStart left ++ character :: right := by
  have stop : (character :: right).dropWhile isBlank = character :: right :=
    List.dropWhile_cons_of_neg (by simp [solid])
  unfold trimStart
  rw [List.dropWhile_append, stop]
  split
  · rename_i blank
    rw [List.isEmpty_iff.mp blank, List.nil_append]
  · rfl

theorem trimStart_append_of_ne_nil {text : List Char} (filled : trimStart text ≠ [])
    (more : List Char) : trimStart (text ++ more) = trimStart text ++ more := by
  have nonempty : (text.dropWhile isBlank).isEmpty = false := by
    simpa [trimStart] using filled
  rw [trimStart, List.dropWhile_append, nonempty]
  rfl

/-- Trimming the end stops at a solid character. -/
theorem trimEnd_append {left : List Char} {character : Char}
    (solid : isBlank character = false) (right : List Char) :
    trimEnd (left ++ character :: right) = left ++ character :: trimEnd right := by
  have stop : (character :: left.reverse).dropWhile isBlank =
      character :: left.reverse :=
    List.dropWhile_cons_of_neg (by simp [solid])
  unfold trimEnd
  rw [List.reverse_append, List.reverse_cons, List.append_assoc,
    List.singleton_append, List.dropWhile_append, stop]
  split
  · rename_i blank
    rw [List.isEmpty_iff.mp blank]
    simp
  · simp

theorem trimEnd_of_allBlank {text : List Char} (blank : AllBlank text) : trimEnd text = [] := by
  have whole := trimEnd_append_blank blank []
  rwa [List.nil_append] at whole

theorem trimEnd_append_of_not_allBlank {text : List Char} (filled : ¬AllBlank text)
    (front : List Char) : trimEnd (front ++ text) = front ++ trimEnd text := by
  obtain ⟨blanks, blank, split⟩ := exists_trimEnd text
  rcases List.eq_nil_or_concat (trimEnd text) with nothing | ⟨inner, last, shape⟩
  · rw [nothing, List.nil_append] at split
    rw [split] at filled
    exact absurd blank filled
  · rw [List.concat_eq_append] at shape
    have solid : isBlank last = false := last_trimEnd (by rw [shape, List.getLast?_concat])
    have whole : front ++ text = (front ++ inner) ++ last :: blanks := by
      rw [split, shape]
      simp
    rw [whole, trimEnd_append solid, trimEnd_of_allBlank blank, shape, List.append_assoc]

theorem isTight_iff {text : List Char} : IsTight text ↔ trim text = text := by
  constructor
  · exact trim_of_isTight
  · intro trimmed
    rw [← trimmed]
    exact isTight_trim text

end Rebac.Text
