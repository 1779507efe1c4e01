import Rebac.Document.Reader
import Rebac.Proofs.Text.Lines

/-!
# Line breaks of either kind

Cutting a text into lines drops the carriage return of a line break.  So the lines of a
text are the parts between the line feeds of the text with unified line breaks.
-/

namespace Rebac

namespace Document

theorem unifyLineBreaks_cons {character : Char} (text : List Char)
    (solid : character ≠ '\r') :
    unifyLineBreaks (character :: text) = character :: unifyLineBreaks text := by
  rw [unifyLineBreaks]
  intro rest equal
  exact absurd equal solid

theorem unifyLineBreaks_append {front : List Char} (noReturn : '\r' ∉ front)
    (rest : List Char) : unifyLineBreaks (front ++ rest) = front ++ unifyLineBreaks rest := by
  induction front with
  | nil => rfl
  | cons character front induction =>
      have different : character ≠ '\r' := fun same => noReturn (same ▸ List.mem_cons_self)
      rw [List.cons_append, unifyLineBreaks_cons _ different,
        induction (List.not_mem_of_not_mem_cons noReturn), List.cons_append]

/-- Unifying the line breaks of a text drops nothing but carriage returns from the start of
it. -/
theorem exists_unifyLineBreaks_append (front rest : List Char) :
    ∃ kept, kept.Sublist front ∧ ('\n' ∈ kept ↔ '\n' ∈ front) ∧
      unifyLineBreaks (front ++ rest) = kept ++ unifyLineBreaks rest := by
  induction front with
  | nil => exact ⟨[], .slnil, Iff.rfl, rfl⟩
  | cons character front induction =>
      obtain ⟨kept, sublist, breaks, unified⟩ := induction
      by_cases dropped : character = '\r' ∧ (front ++ rest).head? = some '\n'
      · obtain ⟨rfl, first⟩ := dropped
        obtain ⟨later, shape⟩ := List.head?_eq_some_iff.mp first
        refine ⟨kept, .cons _ sublist, by simpa using breaks, ?_⟩
        rw [shape, unifyLineBreaks_cons _ (by decide)] at unified
        rw [List.cons_append, shape, unifyLineBreaks]
        exact unified
      · refine ⟨character :: kept, sublist.cons_cons _, by simp [breaks], ?_⟩
        rw [List.cons_append, unifyLineBreaks, unified, List.cons_append]
        intro later same shape
        exact dropped ⟨same, by rw [shape]; rfl⟩

theorem unifyLineBreaks_of_not_mem {text : List Char} (noReturn : '\r' ∉ text) :
    unifyLineBreaks text = text := by
  have whole := unifyLineBreaks_append noReturn []
  rwa [unifyLineBreaks, List.append_nil] at whole

end Document

namespace Text

open Document (unifyLineBreaks)

private theorem linesFrom_append_inline {last : Char} (inline : last ≠ '\n')
    (text : List Char) {reversed : List Char} (unbroken : '\n' ∉ reversed)
    (apart : reversed.head? = some '\r' → text.head? ≠ some '\n') :
    linesFrom reversed (text ++ [last]) =
      (reversed.reverse ++ (unifyLineBreaks text ++ [last])).splitOn '\n' := by
  have single {read : List Char} (absent : '\n' ∉ read) : '\n' ∉ read.reverse := by
    simpa using absent
  fun_induction unifyLineBreaks text generalizing reversed with
  | case1 =>
      have whole : '\n' ∉ reversed.reverse ++ ([] ++ [last]) := by
        simp [unbroken, Ne.symm inline]
      rw [List.splitOn_eq_singleton whole, List.nil_append, linesFrom]
      · simp [linesFrom]
      · exact inline
  | case2 rest induction =>
      have later := induction (List.not_mem_nil : '\n' ∉ []) (by simp)
      simp only [List.cons_append]
      rw [List.splitOn_append_cons_self_of_not_mem (single unbroken), linesFrom, linesFrom,
        later]
      · rfl
      · decide
  | case3 character rest noBreak induction =>
      by_cases ends : character = '\n'
      · subst ends
        have kept : dropReturn reversed = reversed := by
          unfold dropReturn
          split
          · exact absurd rfl (apart rfl)
          · rfl
        have later := induction (List.not_mem_nil : '\n' ∉ []) (by simp)
        rw [List.cons_append, linesFrom, kept, later, List.cons_append,
          List.splitOn_append_cons_self_of_not_mem (single unbroken)]
        rfl
      · have longer : '\n' ∉ character :: reversed := by simp [unbroken, Ne.symm ends]
        have apartLater : (character :: reversed).head? = some '\r' →
            rest.head? ≠ some '\n' := by
          intro returns first
          obtain rfl : character = '\r' := by simpa using returns
          obtain ⟨later, rfl⟩ := List.head?_eq_some_iff.mp first
          exact noBreak later rfl rfl
        have later := induction longer apartLater
        rw [List.cons_append, linesFrom, later]
        · simp
        · exact ends

theorem lines_append_inline {last : Char} (inline : last ≠ '\n') (text : List Char) :
    lines (text ++ [last]) = (unifyLineBreaks text ++ [last]).splitOn '\n' :=
  linesFrom_append_inline inline text List.not_mem_nil (by simp)

end Text

end Rebac
