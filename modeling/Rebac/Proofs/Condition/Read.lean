import Rebac.Proofs.Condition.Written
import Rebac.Proofs.Outcome

/-!
# What the reader of conditions yields

A condition that is read from a block has identifiers for names, declares each
parameter once, and holds a checked expression without blanks at its ends.  It
passes the check of conditions unless a carriage return stands within its
expression.
-/

namespace Rebac.Condition

/-- A condition that a block can spell. -/
structure IsWellFormed (condition : Condition) : Prop where
  identifier : isIdentifier condition.name = true
  fresh : AreFresh [] condition.parameters
  tight : Text.IsTight condition.expression.toList
  checked : Expression.check (condition.parameters.map (·.name))
    condition.expression.toList = .ok ()

theorem IsWellFormed.filled {condition : Condition} (wellFormed : condition.IsWellFormed) :
    condition.expression.toList ≠ [] := by
  intro empty
  have checked := wellFormed.checked
  rw [empty] at checked
  cases checked

theorem check_eq_ok_iff_isWellFormed {condition : Condition} :
    condition.check = .ok () ↔
      condition.IsWellFormed ∧ '\r' ∉ condition.expression.toList := by
  rw [check_eq_ok_iff, isPadded_eq_false_iff]
  constructor
  · rintro ⟨identifier, fresh, ⟨tight, noReturn⟩, checked⟩
    exact ⟨⟨identifier, fresh, tight, checked⟩, noReturn⟩
  · rintro ⟨⟨identifier, fresh, tight, checked⟩, noReturn⟩
    exact ⟨identifier, fresh, ⟨tight, noReturn⟩, checked⟩

theorem IsWellFormed.cause_of_check {condition : Condition} {cause : ConditionFault}
    (wellFormed : condition.IsWellFormed) (failed : condition.check = .error cause) :
    '\r' ∈ condition.expression.toList ∧
      cause = .expression condition.name (.malformed .padded) := by
  have returns : '\r' ∈ condition.expression.toList := by
    by_contra noReturn
    have passed := check_eq_ok_iff_isWellFormed.mpr ⟨wellFormed, noReturn⟩
    rw [passed] at failed
    cases failed
  have fresh : repeatedParameter? [] condition.parameters = none := wellFormed.fresh
  have padded : isPadded condition.expression.toList = true := by
    simp [isPadded, returns]
  have filled : (Text.trim condition.expression.toList).isEmpty = false := by
    rw [Text.trim_of_isTight wellFormed.tight]
    simpa using wellFormed.filled
  refine ⟨returns, ?_⟩
  unfold check at failed
  rw [if_pos wellFormed.identifier, fresh] at failed
  simp only [padded, filled, Bool.not_false, Bool.and_true, if_true] at failed
  exact (Except.error.inj failed).symm

theorem fresh_of_readParameter {condition : String} {declared : List String}
    {entry : List Char} {parameter : Parameter}
    (read : readParameter condition declared entry = .ok parameter) :
    isIdentifier parameter.name = true ∧ parameter.name ∉ declared := by
  unfold readParameter at read
  simp only at read
  split at read
  · cases read
  · split at read
    · rename_i before after cut identifier
      split at read
      · cases read
      · split at read
        · cases read
        · rename_i type found unique
          obtain rfl : _ = parameter := Except.ok.inj read
          exact ⟨identifier, by simpa using unique⟩
    · cases read

theorem areFresh_of_readEntries {condition : String} {declared : List String}
    {entries : List (List Char)} {parameters : List Parameter}
    (read : readEntries condition declared entries = .ok parameters) :
    AreFresh declared parameters := by
  induction entries generalizing declared parameters with
  | nil =>
      obtain rfl : parameters = [] := (Except.ok.inj read).symm
      rfl
  | cons entry entries induction =>
      rw [readEntries] at read
      obtain ⟨parameter, first, read⟩ := bind_eq_ok_iff.mp read
      obtain ⟨later, others, read⟩ := bind_eq_ok_iff.mp read
      obtain rfl : parameter :: later = parameters := Except.ok.inj read
      exact areFresh_cons.mpr ⟨fresh_of_readParameter first, induction others⟩

theorem isWellFormed_of_ofText {text : List Char} {condition : Condition}
    (read : ofText text = .ok condition) : condition.IsWellFormed := by
  unfold ofText at read
  simp only at read
  split at read
  · cases read
  · rename_i name parameters body _
    split at read
    · cases read
    · rename_i expression found
      split at read
      · rename_i identifier
        obtain ⟨declared, readDeclared, read⟩ := bind_eq_ok_iff.mp read
        split at read
        · cases read
        · rename_i checked
          obtain rfl := Except.ok.inj read
          refine ⟨identifier, ?_, ?_, ?_⟩
          · unfold readParameters at readDeclared
            simp only at readDeclared
            split at readDeclared
            · obtain rfl := Except.ok.inj readDeclared
              rfl
            · exact areFresh_of_readEntries readDeclared
          · rw [String.toList_ofList]
            exact (blockExpression?_eq_some_iff.mp found).1
          · rw [String.toList_ofList]
            exact checked
      · cases read

/-- The block of a condition that a block can spell is read back. -/
theorem IsWellFormed.ofText_toText {condition : Condition}
    (wellFormed : condition.IsWellFormed) : ofText condition.toText = .ok condition := by
  have blank : Text.AllBlank "\n".toList := by decide
  have layout : condition.toText = condition.headText ++
      ("\n  ".toList ++ condition.expression.toList ++ "\n\x7d".toList ++ "\n".toList) := by
    rw [toText_eq_headText]
    simp only [List.append_assoc]
    rfl
  rw [layout]
  apply (ofText_headText_eq_ok_iff wellFormed.identifier wellFormed.fresh _).mpr
  refine ⟨condition.expression.toList, blockExpression?_written wellFormed.tight blank,
    wellFormed.checked, ?_⟩
  rw [String.ofList_toList]

/-- A condition passes its check exactly if its own block is read back as it is and no
carriage return stands in its expression. -/
theorem check_eq_ok_iff_ofText_toText (condition : Condition) :
    condition.check = .ok () ↔
      ofText condition.toText = .ok condition ∧
        '\r' ∉ condition.expression.toList := by
  rw [check_eq_ok_iff_isWellFormed]
  constructor
  · rintro ⟨wellFormed, noReturn⟩
    exact ⟨wellFormed.ofText_toText, noReturn⟩
  · rintro ⟨read, noReturn⟩
    exact ⟨isWellFormed_of_ofText read, noReturn⟩

end Rebac.Condition
