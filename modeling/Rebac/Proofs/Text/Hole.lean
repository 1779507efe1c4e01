import Rebac.Proofs.Text.Lines

/-!
# Texts with a hole

A hole is a place between two quotes of a text.  What a text is trimmed to, and the lines
that it is cut into, keep the hole, whatever it is filled with.
-/

namespace Rebac

/-- A text with a hole between two quotes. -/
structure Hole where
  left : List Char
  quote : Char
  right : List Char
  deriving Repr, DecidableEq

namespace Hole

def fill (hole : Hole) (body : List Char) : List Char :=
  hole.left ++ hole.quote :: (body ++ hole.quote :: hole.right)

/-- The same hole in a longer text. -/
def widen (hole : Hole) (front back : List Char) : Hole :=
  { hole with left := front ++ hole.left, right := hole.right ++ back }

variable {hole : Hole} {body : List Char}

theorem widen_widen (hole : Hole) (front back before after : List Char) :
    (hole.widen front back).widen before after =
      hole.widen (before ++ front) (back ++ after) := by
  simp [widen]

theorem fill_widen (hole : Hole) (front back body : List Char) :
    (hole.widen front back).fill body = front ++ (hole.fill body ++ back) := by
  simp [fill, widen]

theorem head?_fill (hole : Hole) (body other : List Char) :
    (hole.fill body).head? = (hole.fill other).head? := by
  unfold fill
  cases hole.left <;> rfl

theorem getLast?_fill (hole : Hole) (body other : List Char) :
    (hole.fill body).getLast? = (hole.fill other).getLast? := by
  have closing : ∀ inner : List Char, hole.fill inner =
      (hole.left ++ hole.quote :: inner) ++ hole.quote :: hole.right := by
    simp [fill]
  rw [closing, closing, List.getLast?_append, List.getLast?_append]
  simp [List.getLast?_cons]

theorem isTight_fill (tight : Text.IsTight (hole.fill body)) (other : List Char) :
    Text.IsTight (hole.fill other) := by
  constructor
  · rw [head?_fill hole other body]
    exact tight.head
  · rw [getLast?_fill hole other body]
    exact tight.last

theorem trim_fill (solid : Text.isBlank hole.quote = false) (body : List Char) :
    Text.trim (hole.fill body) =
      { hole with
        left := Text.trimStart hole.left
        right := Text.trimEnd hole.right : Hole }.fill body := by
  unfold fill
  rw [Text.trim, Text.trimStart_append solid]
  have closing : ∀ front : List Char, front ++ hole.quote :: (body ++ hole.quote :: hole.right) =
      (front ++ hole.quote :: body) ++ hole.quote :: hole.right := by
    simp
  rw [closing, Text.trimEnd_append solid]
  simp

theorem exists_trim_fill {line : List Char} (trimmed : Text.trim line = hole.fill body) :
    ∃ before after, Text.AllBlank before ∧ line = (hole.widen before after).fill body ∧
      ∀ other, Text.trim ((hole.widen before after).fill other) = hole.fill other := by
  obtain ⟨before, after, beforeBlank, afterBlank, split⟩ := Text.exists_surroundings line
  have tight : Text.IsTight (hole.fill body) := trimmed ▸ Text.isTight_trim line
  refine ⟨before, after, beforeBlank, ?_, fun other => ?_⟩
  · rw [fill_widen, ← trimmed, ← List.append_assoc]
    exact split
  · rw [fill_widen, ← List.append_assoc]
    exact Text.trim_surrounded beforeBlank (isTight_fill tight other) afterBlank

theorem exists_first_fill {line suffix : List Char}
    (inline : '\n' ∉ hole.left ++ hole.quote :: (body ++ [hole.quote]))
    (split : hole.fill body = line ++ '\n' :: suffix) :
    ∃ right, line = { hole with right : Hole }.fill body ∧
      ∀ other, hole.fill other = { hole with right : Hole }.fill other ++ '\n' :: suffix := by
  have cut : (hole.left ++ hole.quote :: (body ++ [hole.quote])) ++ hole.right =
      line ++ '\n' :: suffix := by
    rw [← split]
    simp [fill]
  obtain ⟨right, rfl, behind⟩ := Text.exists_of_append_break inline cut
  exact ⟨right, by simp [fill], fun other => by simp [fill, behind]⟩

end Hole

namespace Text

theorem exists_dropReturn_exchange (first : List Char) :
    ∃ ending, first = (dropReturn first.reverse).reverse ++ ending ∧
      ∀ other, other.getLast? = (dropReturn first.reverse).reverse.getLast? →
        (dropReturn (other ++ ending).reverse).reverse = other := by
  rcases List.eq_nil_or_concat first with rfl | ⟨start, last, rfl⟩
  · refine ⟨[], rfl, fun other same => ?_⟩
    obtain rfl : other = [] := by simpa [dropReturn] using same
    rfl
  · rw [List.concat_eq_append, List.reverse_append, List.reverse_singleton,
      List.singleton_append]
    by_cases returns : last = '\r'
    · subst returns
      exact ⟨['\r'], by simp [dropReturn], fun other _ => by simp [dropReturn]⟩
    · rw [dropReturn_cons returns]
      refine ⟨[], by simp, fun other same => ?_⟩
      obtain ⟨inner, rfl⟩ := List.getLast?_eq_some_iff.mp (by simpa using same)
      simp [dropReturn_cons returns]

/-- A line of a text can be exchanged for one with the same end. -/
theorem exists_lines_exchange {text line : List Char} {front back : List (List Char)}
    (cut : lines text = front ++ line :: back) :
    ∃ before after, text = before ++ (line ++ after) ∧
      ∀ other, '\n' ∉ other → other.getLast? = line.getLast? →
        lines (before ++ (other ++ after)) = front ++ other :: back := by
  induction front generalizing text with
  | nil =>
      by_cases broken : '\n' ∈ text
      · obtain ⟨first, rest, rfl, unbroken⟩ := List.eq_append_cons_of_mem broken
        rw [lines_append_line unbroken] at cut
        obtain ⟨rfl, rfl⟩ := List.cons.inj cut
        obtain ⟨ending, split, exchange⟩ := exists_dropReturn_exchange first
        refine ⟨[], ending ++ '\n' :: rest, ?_, fun other inline same => ?_⟩
        · rw [List.nil_append, ← List.append_assoc, ← split]
        · have inEnding : '\n' ∉ ending := fun member =>
            unbroken (split ▸ List.mem_append_right _ member)
          have whole : '\n' ∉ other ++ ending := by simp [inline, inEnding]
          rw [List.nil_append, ← List.append_assoc, lines_append_line whole,
            exchange other same]
          rfl
      · have filled : text ≠ [] := by
          rintro rfl
          cases cut
        rw [lines_of_not_mem broken filled] at cut
        obtain ⟨rfl, rfl⟩ := List.cons.inj cut
        refine ⟨[], [], by simp, fun other inline same => ?_⟩
        have filledOther : other ≠ [] := by
          rintro rfl
          exact filled (List.getLast?_eq_none_iff.mp same.symm)
        rw [List.nil_append, List.append_nil, lines_of_not_mem inline filledOther]
        rfl
  | cons kept front induction =>
      have broken : '\n' ∈ text := by
        refine Decidable.byContradiction fun unbroken => ?_
        cases text with
        | nil => cases cut
        | cons character text =>
            rw [lines_of_not_mem unbroken (List.cons_ne_nil _ _)] at cut
            simp at cut
      obtain ⟨first, rest, rfl, unbroken⟩ := List.eq_append_cons_of_mem broken
      rw [lines_append_line unbroken] at cut
      obtain ⟨rfl, later⟩ := List.cons.inj cut
      obtain ⟨before, after, rfl, exchange⟩ := induction later
      refine ⟨first ++ '\n' :: before, after, by simp, fun other inline same => ?_⟩
      rw [List.append_assoc, List.cons_append, lines_append_line unbroken,
        exchange other inline same]
      rfl

/-- The lines of a text keep its hole. -/
theorem exists_lines_fill {text body : List Char} {hole : Hole} {front back : List (List Char)}
    (cut : lines text = front ++ hole.fill body :: back) :
    ∃ place : Hole, place.quote = hole.quote ∧ text = place.fill body ∧
      ∀ other, '\n' ∉ other → lines (place.fill other) = front ++ hole.fill other :: back := by
  obtain ⟨before, after, rfl, exchange⟩ := exists_lines_exchange cut
  refine ⟨hole.widen before after, rfl, (hole.fill_widen before after body).symm, ?_⟩
  intro other unbroken
  have inline : '\n' ∉ hole.fill body := by
    have member : hole.fill body ∈ lines (before ++ (hole.fill body ++ after)) := by
      rw [cut]
      simp
    exact not_mem_of_mem_lines member
  rw [Hole.fill_widen]
  refine exchange (hole.fill other) ?_ (hole.getLast?_fill other body)
  simp only [Hole.fill, List.mem_append, List.mem_cons, not_or] at inline ⊢
  exact ⟨inline.1, inline.2.1, unbroken, inline.2.2.2⟩

end Text

end Rebac
