import Rebac.Dsl.Statement
import Rebac.Proofs.Text.Trim

/-!
# Trailing comments

A line that is a statement of its own loses its trailing comment: the first hash behind
a blank and all that follows it, together with the blanks in front of it.  Nothing is cut
off exactly if no hash stands behind a blank, and what has been cut off starts with a
hash.
-/

namespace Rebac

theorem Text.trimEnd_append_trimEnd (front text : List Char) :
    trimEnd (front ++ trimEnd text) = trimEnd (front ++ text) := by
  obtain ⟨blanks, blank, split⟩ := exists_trimEnd text
  calc
    trimEnd (front ++ trimEnd text) = trimEnd (front ++ trimEnd text ++ blanks) :=
      (trimEnd_append_blank blank _).symm
    _ = trimEnd (front ++ text) := by rw [List.append_assoc, ← split]

namespace Dsl

/-- A text in which a hash stands right behind a blank. -/
def HasRemark (text : List Char) : Prop :=
  ∃ front blank rest, text = front ++ blank :: '#' :: rest ∧
    Text.isAsciiBlank blank = true

theorem hasRemark_cons_iff {character : Char} {text : List Char} :
    HasRemark (character :: text) ↔
      (Text.isAsciiBlank character = true ∧ text.head? = some '#') ∨ HasRemark text := by
  constructor
  · rintro ⟨front, blank, rest, split, ascii⟩
    cases front with
    | nil =>
        obtain ⟨rfl, rfl⟩ := List.cons.inj split
        exact .inl ⟨ascii, rfl⟩
    | cons first front =>
        obtain ⟨rfl, rfl⟩ := List.cons.inj split
        exact .inr ⟨front, blank, rest, rfl, ascii⟩
  · rintro (⟨ascii, first⟩ | ⟨front, blank, rest, rfl, ascii⟩)
    · obtain ⟨rest, rfl⟩ := List.head?_eq_some_iff.mp first
      exact ⟨[], character, rest, rfl, ascii⟩
    · exact ⟨character :: front, blank, rest, rfl, ascii⟩

/-- Nothing is cut off a text in which no hash stands behind a blank, nor at a start that
counts as blank. -/
theorem cutComment_eq_self_iff {boundary : Bool} {text : List Char} :
    cutComment boundary text = text ↔
      ¬(boundary = true ∧ text.head? = some '#') ∧ ¬HasRemark text := by
  induction text generalizing boundary with
  | nil =>
      simp [cutComment, HasRemark]
  | cons character text induction =>
      rw [cutComment, hasRemark_cons_iff]
      by_cases cut : (boundary && character = '#') = true
      · have starts : boundary = true ∧ character = '#' := by simpa using cut
        simp [starts]
      · have uncut : ¬(boundary = true ∧ character = '#') := by simpa using cut
        rw [if_neg cut, List.cons.injEq, induction]
        simp only [List.head?_cons, Option.some.injEq, uncut, not_false_eq_true, true_and,
          not_or]

instance (text : List Char) : Decidable (HasRemark text) :=
  decidable_of_iff (cutComment false text ≠ text) (by simp [cutComment_eq_self_iff])

theorem exists_of_cutComment_ne {boundary : Bool} {text : List Char}
    (cut : cutComment boundary text ≠ text) :
    ∃ rest, text = cutComment boundary text ++ '#' :: rest := by
  induction text generalizing boundary with
  | nil => exact absurd rfl cut
  | cons character text induction =>
      rw [cutComment] at cut ⊢
      split
      · rename_i starts
        obtain ⟨_, rfl⟩ : boundary = true ∧ character = '#' := by simpa using starts
        exact ⟨text, rfl⟩
      · rename_i uncut
        rw [if_neg uncut] at cut
        obtain ⟨rest, split⟩ := induction fun same => cut (congrArg (character :: ·) same)
        exact ⟨rest, congrArg (character :: ·) split⟩

private theorem trimEnd_cutComment_append {tail : List Char}
    (blank : ∀ boundary, Text.AllBlank (cutComment boundary tail)) (boundary : Bool)
    (text : List Char) :
    Text.trimEnd (cutComment boundary (text ++ tail)) =
      Text.trimEnd (cutComment boundary text) := by
  induction text generalizing boundary with
  | nil => rw [List.nil_append, Text.trimEnd_of_allBlank (blank boundary)]; rfl
  | cons character text induction =>
      rw [List.cons_append, cutComment, cutComment]
      split
      · rfl
      · rw [← List.singleton_append, ← Text.trimEnd_append_trimEnd, induction,
          Text.trimEnd_append_trimEnd, List.singleton_append]

theorem dropTrailingComment_trimEnd (line : List Char) :
    dropTrailingComment (Text.trimEnd line) = dropTrailingComment line := by
  obtain ⟨blanks, blank, split⟩ := Text.exists_trimEnd line
  have noHash : '#' ∉ blanks := fun member => absurd (blank '#' member) (by decide)
  have uncut : ∀ boundary, cutComment boundary blanks = blanks := by
    intro boundary
    refine cutComment_eq_self_iff.mpr ⟨?_, ?_⟩
    · rintro ⟨_, first⟩
      exact noHash (List.mem_of_head? first)
    · rintro ⟨front, before, rest, rfl, _⟩
      exact noHash (by simp)
  have kept : ∀ boundary, Text.AllBlank (cutComment boundary blanks) := by
    intro boundary
    rwa [uncut]
  have same := trimEnd_cutComment_append kept true (Text.trimEnd line)
  rw [← split] at same
  exact same.symm

/-- A trailing comment does not matter. -/
theorem dropTrailingComment_append {blank : Char} (ascii : Text.isAsciiBlank blank = true)
    (line comment : List Char) :
    dropTrailingComment (line ++ blank :: '#' :: comment) = dropTrailingComment line := by
  have noHash : blank ≠ '#' := by
    rintro rfl
    cases ascii
  have kept : ∀ boundary, cutComment boundary (blank :: '#' :: comment) = [blank] := by
    intro boundary
    simp [cutComment, noHash, ascii]
  apply trimEnd_cutComment_append
  intro boundary
  rw [kept]
  exact Text.allBlank_singleton (Text.isBlank_of_isAsciiBlank ascii)

end Dsl

end Rebac
