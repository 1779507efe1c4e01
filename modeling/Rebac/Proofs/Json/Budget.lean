import Rebac.Json.Reader
import Rebac.Proofs.Outcome

/-!
# The budget of the reader

Every step of the reader leaves less text, two steps at most for each character.  So the
budget that a text starts with never runs out, and what is read does not depend on it.
-/

namespace Rebac.Json

section

variable {negative downwards : Bool} {digits exponent : Nat} {power : Int}
  {text rest : List Char} {number : JsonNumber}

theorem length_of_finishReal
    (read : finishReal negative digits power text = .ok (number, rest)) :
    rest.length ≤ text.length := by
  rw [finishReal] at read
  split at read
  · cases read
    exact Nat.le_refl _
  · cases read

theorem length_gatherDigits_le (value count : Nat) (text : List Char) :
    (gatherDigits value count text).2.2.length ≤ text.length := by
  induction text generalizing value count with
  | nil => exact Nat.le_refl 0
  | cons character rest induction =>
      rw [gatherDigits]
      split
      · simp only
        split
        · exact Nat.le_succ_of_le (induction _ _)
        · exact Nat.le_refl _
      · exact Nat.le_refl _

theorem length_of_readExponentDigits
    (read : readExponentDigits negative digits power downwards exponent text =
      .ok (number, rest)) : rest.length ≤ text.length := by
  induction text generalizing exponent with
  | nil => exact length_of_finishReal read
  | cons character later induction =>
      rw [readExponentDigits] at read
      split at read
      · simp only at read
        split at read
        · exact Nat.le_succ_of_le (induction read)
        · split at read
          · cases read
          · cases read
            exact Nat.le_succ_of_le (Text.length_dropWhile_le _ later)
      · exact length_of_finishReal read

theorem length_of_readExponent
    (read : readExponent negative digits power text = .ok (number, rest)) :
    rest.length ≤ text.length := by
  have unsigned := Numeral.length_splitSign_le text
  rw [readExponent] at read
  simp only at read
  split at read
  · cases read
  · rename_i first later split
    rw [split] at unsigned
    split at read
    · have shorter := length_of_readExponentDigits read
      rw [List.length_cons] at unsigned
      omega
    · cases read

theorem length_of_readScale
    (read : readScale negative digits power text = .ok (number, rest)) :
    rest.length ≤ text.length := by
  unfold readScale at read
  split at read
  · exact Nat.le_succ_of_le (length_of_readExponent read)
  · exact Nat.le_succ_of_le (length_of_readExponent read)
  · exact length_of_finishReal read

theorem length_of_readFraction
    (read : readFraction negative digits power text = .ok (number, rest)) :
    rest.length ≤ text.length := by
  have gathered := length_gatherDigits_le digits 0 text
  rw [readFraction] at read
  simp only at read
  split at read
  · exact Nat.le_trans (length_of_readScale read)
      (Nat.le_trans (Text.length_dropWhile_le _ _) gathered)
  · split at read
    · split at read
      · cases read
      · cases read
    · exact Nat.le_trans (length_of_readScale read) gathered

theorem length_of_afterInteger
    (read : afterInteger negative digits text = .ok (number, rest)) :
    rest.length ≤ text.length := by
  unfold afterInteger at read
  split at read
  · exact Nat.le_succ_of_le (length_of_readFraction read)
  · exact Nat.le_succ_of_le (length_of_readExponent read)
  · exact Nat.le_succ_of_le (length_of_readExponent read)
  · cases read
    exact Nat.le_refl _

theorem length_of_afterLongInteger
    (read : afterLongInteger negative digits text = .ok (number, rest)) :
    rest.length ≤ text.length := by
  have skipped := Text.length_dropWhile_le Char.isDigit text
  rw [afterLongInteger] at read
  split at read
  · rename_i later start
    have fraction := length_of_readFraction read
    rw [start, List.length_cons] at skipped
    omega
  · exact Nat.le_trans (length_of_readScale read) skipped

theorem length_of_readMagnitude
    (read : readMagnitude negative text = .ok (number, rest)) :
    rest.length < text.length := by
  unfold readMagnitude at read
  split at read
  · cases read
  · split at read
    · cases read
    · exact Nat.lt_succ_of_le (length_of_afterInteger read)
  · rename_i first later _
    split at read
    · have gathered := length_gatherDigits_le (digitValue first) 1 later
      generalize gatherDigits (digitValue first) 1 later = parts at read gathered
      obtain ⟨value, count, remaining⟩ := parts
      simp only at read gathered
      split at read
      · exact Nat.lt_succ_of_le (Nat.le_trans (length_of_afterLongInteger read) gathered)
      · exact Nat.lt_succ_of_le (Nat.le_trans (length_of_afterInteger read) gathered)
    · cases read

theorem length_of_readNumber (read : readNumber text = .ok (number, rest)) :
    rest.length < text.length := by
  unfold readNumber at read
  split at read
  · exact Nat.lt_succ_of_lt (length_of_readMagnitude read)
  · exact length_of_readMagnitude read

theorem length_of_map_readWord {word : List Char} {meant value : Json}
    (read : (readWord word text).map (meant, ·) = .ok (value, rest)) :
    rest.length ≤ text.length := by
  obtain ⟨_, found, same⟩ := map_eq_ok_iff.mp read
  cases same
  exact length_of_readWord found

end

mutual

theorem length_of_readValue {budget levels : Nat} {text rest : List Char} {value : Json}
    (read : readValue budget levels text = .ok (value, rest)) :
    rest.length < text.length := by
  cases budget with
  | zero => cases read
  | succ budget =>
      have gap := Text.length_skipGap_le text
      rw [readValue] at read
      generalize Text.skipGap text = solid at read gap
      apply Nat.lt_of_lt_of_le _ gap
      split at read
      · cases read
      · exact Nat.lt_succ_of_le (length_of_map_readWord read)
      · exact Nat.lt_succ_of_le (length_of_map_readWord read)
      · exact Nat.lt_succ_of_le (length_of_map_readWord read)
      · obtain ⟨_, found, same⟩ := map_eq_ok_iff.mp read
        cases same
        exact Nat.lt_succ_of_lt (length_of_readString found)
      · rename_i inner
        have innerGap := Text.length_skipGap_le inner
        generalize Text.skipGap inner = items at read innerGap
        apply Nat.lt_succ_of_le
        split at read
        · cases read
        · split at read
          · cases read
          · cases read
            exact Nat.le_of_succ_le innerGap
          · exact Nat.le_trans (Nat.le_of_lt (length_of_readItems read)) innerGap
      · rename_i inner
        have innerGap := Text.length_skipGap_le inner
        generalize Text.skipGap inner = members at read innerGap
        apply Nat.lt_succ_of_le
        split at read
        · cases read
        · split at read
          · cases read
          · cases read
            exact Nat.le_of_succ_le innerGap
          · exact Nat.le_trans (Nat.le_of_lt (length_of_readMembers read)) innerGap
      · split at read
        · obtain ⟨_, found, same⟩ := map_eq_ok_iff.mp read
          cases same
          exact length_of_readNumber found
        · cases read
termination_by budget

theorem length_of_readItems {budget levels : Nat} {reversed : List Json}
    {text rest : List Char} {value : Json}
    (read : readItems budget levels reversed text = .ok (value, rest)) :
    rest.length < text.length := by
  cases budget with
  | zero => cases read
  | succ budget =>
      rw [readItems] at read
      split at read
      · cases read
      · rename_i item behind found
        have shorter := length_of_readValue found
        have gap := Text.length_skipGap_le behind
        generalize Text.skipGap behind = solid at read gap
        split at read
        · cases read
        · cases read
          exact Nat.lt_trans (Nat.lt_of_succ_le gap) shorter
        · rename_i next
          have nextGap := Text.length_skipGap_le next
          rw [List.length_cons] at gap
          generalize Text.skipGap next = items at read nextGap
          split at read
          · cases read
          · cases read
          · have later := length_of_readItems read
            omega
        · cases read
termination_by budget

theorem length_of_readMembers {budget levels : Nat} {reversed : List (String × Json)}
    {text rest : List Char} {value : Json}
    (read : readMembers budget levels reversed text = .ok (value, rest)) :
    rest.length < text.length := by
  cases budget with
  | zero => cases read
  | succ budget =>
      rw [readMembers] at read
      split at read
      · cases read
      · rename_i key colon keyFound
        have keyShorter := length_of_readKey keyFound
        split at read
        · cases read
        · rename_i item behind found
          have shorter := length_of_readValue found
          have gap := Text.length_skipGap_le behind
          simp only at read
          generalize Text.skipGap behind = solid at read gap
          split at read
          · cases read
          · cases read
            rw [List.length_cons] at gap
            omega
          · rename_i next
            have nextGap := Text.length_skipGap_le next
            rw [List.length_cons] at gap
            generalize Text.skipGap next = members at read nextGap
            split at read
            · cases read
            · cases read
            · have later := length_of_readMembers read
              omega
          · cases read
termination_by budget

end

mutual

theorem readValue_budget {budget other : Nat} (levels : Nat) {text : List Char}
    (enough : 2 * text.length < budget) (enoughToo : 2 * text.length < other) :
    readValue budget levels text = readValue other levels text := by
  obtain ⟨budget, rfl⟩ := Nat.exists_eq_add_one_of_ne_zero (Nat.ne_zero_of_lt enough)
  obtain ⟨other, rfl⟩ := Nat.exists_eq_add_one_of_ne_zero (Nat.ne_zero_of_lt enoughToo)
  have gap := Text.length_skipGap_le text
  rw [readValue, readValue]
  generalize Text.skipGap text = solid at gap
  split
  · rfl
  · rfl
  · rfl
  · rfl
  · rfl
  · rename_i inner
    have innerGap := Text.length_skipGap_le inner
    rw [List.length_cons] at gap
    generalize Text.skipGap inner = items at innerGap
    split
    · rfl
    · split
      · rfl
      · rfl
      · exact readItems_budget _ _ (by omega) (by omega)
  · rename_i inner
    have innerGap := Text.length_skipGap_le inner
    rw [List.length_cons] at gap
    generalize Text.skipGap inner = members at innerGap
    split
    · rfl
    · split
      · rfl
      · rfl
      · exact readMembers_budget _ _ (by omega) (by omega)
  · rfl
termination_by budget

theorem readItems_budget {budget other : Nat} (levels : Nat) (reversed : List Json)
    {text : List Char} (enough : 2 * text.length + 1 < budget)
    (enoughToo : 2 * text.length + 1 < other) :
    readItems budget levels reversed text = readItems other levels reversed text := by
  obtain ⟨budget, rfl⟩ := Nat.exists_eq_add_one_of_ne_zero (Nat.ne_zero_of_lt enough)
  obtain ⟨other, rfl⟩ := Nat.exists_eq_add_one_of_ne_zero (Nat.ne_zero_of_lt enoughToo)
  rw [readItems, readItems,
    readValue_budget levels (Nat.lt_of_succ_lt_succ enough)
      (Nat.lt_of_succ_lt_succ enoughToo)]
  split
  · rfl
  · rename_i item behind found
    have shorter := length_of_readValue found
    have gap := Text.length_skipGap_le behind
    generalize Text.skipGap behind = solid at gap
    split
    · rfl
    · rfl
    · rename_i next
      have nextGap := Text.length_skipGap_le next
      rw [List.length_cons] at gap
      generalize Text.skipGap next = items at nextGap
      split
      · rfl
      · rfl
      · -- The item and the comma behind it pay for both steps.
        exact readItems_budget _ _ (by omega) (by omega)
    · rfl
termination_by budget

theorem readMembers_budget {budget other : Nat} (levels : Nat)
    (reversed : List (String × Json)) {text : List Char}
    (enough : 2 * text.length + 1 < budget) (enoughToo : 2 * text.length + 1 < other) :
    readMembers budget levels reversed text = readMembers other levels reversed text := by
  obtain ⟨budget, rfl⟩ := Nat.exists_eq_add_one_of_ne_zero (Nat.ne_zero_of_lt enough)
  obtain ⟨other, rfl⟩ := Nat.exists_eq_add_one_of_ne_zero (Nat.ne_zero_of_lt enoughToo)
  rw [readMembers, readMembers]
  split
  · rfl
  · rename_i key colon keyFound
    have keyShorter := length_of_readKey keyFound
    have sameValue : readValue budget levels colon = readValue other levels colon :=
      readValue_budget levels (by omega) (by omega)
    rw [sameValue]
    split
    · rfl
    · rename_i value behind found
      have shorter := length_of_readValue found
      have gap := Text.length_skipGap_le behind
      simp only
      generalize Text.skipGap behind = solid at gap
      split
      · rfl
      · rfl
      · rename_i next
        have nextGap := Text.length_skipGap_le next
        rw [List.length_cons] at gap
        generalize Text.skipGap next = members at nextGap
        split
        · rfl
        · rfl
        · exact readMembers_budget _ _ (by omega) (by omega)
      · rfl
termination_by budget

end

/-- Any budget of more than two steps for each character reads the same value. -/
theorem readFirst_eq_readValue {budget : Nat} (levels : Nat) {text : List Char}
    (enough : 2 * text.length < budget) :
    readFirst levels text = readValue budget levels text :=
  readValue_budget levels (Nat.lt_add_of_pos_right (by decide)) enough

end Rebac.Json
