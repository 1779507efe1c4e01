import Rebac.Json.Reader

/-!
# Skipping JSON values

A value that nobody asks for is only skipped.  Its form has to be right, but its
numbers may be of any size, its strings may hold single surrogates, and it may
nest to any depth.  What it stands in is kept as a list, innermost first.
-/

namespace Rebac.Json

/-- Skip the rest of a string. -/
def skipString : List Char → Option (List Char)
  | [] => none
  | '"' :: rest => some rest
  | '\\' :: 'u' :: rest =>
      if (hexUnit? rest).isSome then skipString (rest.drop 4) else none
  | '\\' :: letter :: rest =>
      if (shortEscape? letter).isSome then skipString rest else none
  | character :: rest =>
      if character = '\\' || character.toNat < 0x20 then none else skipString rest
termination_by text => text.length
decreasing_by
  all_goals simp only [List.length_cons, List.length_drop]
  all_goals omega

/-- Skip a nonempty row of digits. -/
def skipDigits (text : List Char) : Option (List Char) :=
  if startsWithDigit text then some (text.dropWhile Char.isDigit) else none

/-- Skip an exponent, if one follows. -/
def skipExponent : List Char → Option (List Char)
  | [] => some []
  | mark :: rest =>
      if mark = 'e' || mark = 'E' then skipDigits (Numeral.splitSign rest).2
      else some (mark :: rest)

/-- Skip what follows the integer part of a number. -/
def skipFraction : List Char → Option (List Char)
  | '.' :: rest => (skipDigits rest).bind skipExponent
  | text => skipExponent text

/-- Skip a number without its sign; a leading zero stands alone. -/
def skipMagnitude : List Char → Option (List Char)
  | '0' :: rest => if startsWithDigit rest then none else skipFraction rest
  | text => (skipDigits text).bind skipFraction

/-- Skip a value that is neither a list nor an object. -/
def skipScalar : List Char → Option (List Char)
  | '"' :: rest => skipString rest
  | 'n' :: rest => (readWord "ull".toList rest).toOption
  | 't' :: rest => (readWord "rue".toList rest).toOption
  | 'f' :: rest => (readWord "alse".toList rest).toOption
  | '-' :: rest => skipMagnitude rest
  | text => skipMagnitude text

/-- Skip the key of a member and the colon after it. -/
def skipKey : List Char → Option (List Char)
  | '"' :: rest => do
      match Text.skipGap (← skipString rest) with
      | ':' :: rest => some rest
      | _ => none
  | _ => none

theorem length_of_skipString {text rest : List Char}
    (skip : skipString text = some rest) : rest.length < text.length := by
  fun_induction skipString text with
  | case1 => simp at skip
  | case2 => simp_all
  | case3 after _ induction =>
      have shorter := induction skip
      simp only [List.length_drop] at shorter
      simp only [List.length_cons]
      omega
  | case4 => simp at skip
  | case5 letter after _ _ induction =>
      have shorter := induction skip
      simp only [List.length_cons]
      omega
  | case6 => simp at skip
  | case7 => simp at skip
  | case8 character after _ _ _ _ induction =>
      have shorter := induction skip
      simp only [List.length_cons]
      omega

theorem length_of_skipDigits {text rest : List Char}
    (skip : skipDigits text = some rest) : rest.length < text.length := by
  unfold skipDigits at skip
  split at skip
  · rename_i starts
    cases text with
    | nil => simp [startsWithDigit] at starts
    | cons first after =>
        simp only [startsWithDigit] at starts
        simp only [List.dropWhile_cons, starts, if_true, Option.some.injEq] at skip
        subst skip
        exact Nat.lt_succ_of_le (Text.length_dropWhile_le _ after)
  · simp at skip

theorem length_of_skipExponent {text rest : List Char}
    (skip : skipExponent text = some rest) : rest.length ≤ text.length := by
  unfold skipExponent at skip
  split at skip
  · simp_all
  · rename_i mark after
    split at skip
    · have shorter := length_of_skipDigits skip
      have signed := Numeral.length_splitSign_le after
      simp only [List.length_cons]
      omega
    · simp_all

theorem length_of_skipFraction {text rest : List Char}
    (skip : skipFraction text = some rest) : rest.length ≤ text.length := by
  unfold skipFraction at skip
  split at skip
  · obtain ⟨middle, digits, exponent⟩ := Option.bind_eq_some_iff.mp skip
    have shorter := length_of_skipDigits digits
    have shorter' := length_of_skipExponent exponent
    simp only [List.length_cons]
    omega
  · exact length_of_skipExponent skip

theorem length_of_skipMagnitude {text rest : List Char}
    (skip : skipMagnitude text = some rest) : rest.length < text.length := by
  unfold skipMagnitude at skip
  split at skip
  · split at skip
    · simp at skip
    · exact Nat.lt_succ_of_le (length_of_skipFraction skip)
  · obtain ⟨middle, digits, fraction⟩ := Option.bind_eq_some_iff.mp skip
    have shorter := length_of_skipDigits digits
    have shorter' := length_of_skipFraction fraction
    omega

theorem length_of_skipWord {word text rest : List Char}
    (skip : (readWord word text).toOption = some rest) :
    rest.length ≤ text.length := by
  cases read : readWord word text with
  | error fault => simp [read, Except.toOption] at skip
  | ok found =>
      simp only [read, Except.toOption, Option.some.injEq] at skip
      exact skip ▸ length_of_readWord read

theorem length_of_skipScalar {text rest : List Char}
    (skip : skipScalar text = some rest) : rest.length < text.length := by
  unfold skipScalar at skip
  split at skip
  · exact Nat.lt_succ_of_lt (length_of_skipString skip)
  · exact Nat.lt_succ_of_le (length_of_skipWord skip)
  · exact Nat.lt_succ_of_le (length_of_skipWord skip)
  · exact Nat.lt_succ_of_le (length_of_skipWord skip)
  · exact Nat.lt_succ_of_lt (length_of_skipMagnitude skip)
  · exact length_of_skipMagnitude skip

theorem length_of_skipKey {text rest : List Char}
    (skip : skipKey text = some rest) : rest.length < text.length := by
  unfold skipKey at skip
  split at skip
  · obtain ⟨middle, key, colon⟩ := Option.bind_eq_some_iff.mp skip
    split at colon
    · rename_i after found
      obtain rfl := Option.some.inj colon
      have shorter := length_of_skipString key
      have shorter' := Text.length_lt_of_skipGap found
      simp only [List.length_cons]
      omega
    · simp at colon
  · simp at skip

/-- What a value stands in. -/
inductive Enclosure where
  | list
  | object
  deriving Repr, DecidableEq

mutual

/-- Skip a value and then all that it stands in. -/
def skipWithin (enclosures : List Enclosure) (text : List Char) :
    Option (List Char) :=
  match _start : Text.skipGap text with
  | '[' :: inner =>
      match _first : Text.skipGap inner with
      | ']' :: rest => skipOutward enclosures rest
      | _ => skipWithin (.list :: enclosures) inner
  | '\x7b' :: inner =>
      match _first : Text.skipGap inner with
      | '\x7d' :: rest => skipOutward enclosures rest
      | first =>
          match _key : skipKey first with
          | some rest => skipWithin (.object :: enclosures) rest
          | none => none
  | start =>
      match _scalar : skipScalar start with
      | some rest => skipOutward enclosures rest
      | none => none
termination_by text.length
decreasing_by
  · have outside := Text.length_lt_of_skipGap _start
    have inside := Text.length_lt_of_skipGap _first
    omega
  · exact Text.length_lt_of_skipGap _start
  · have outside := Text.length_lt_of_skipGap _start
    have inside := Text.length_lt_of_skipGap _first
    omega
  · have outside := Text.length_lt_of_skipGap _start
    have inside := length_of_skipKey _key
    have gap := Text.length_skipGap_le inner
    rw [_first] at gap
    omega
  · have inside := length_of_skipScalar _scalar
    have gap := Text.length_skipGap_le text
    rw [_start] at gap
    omega

/-- Skip what follows a value in all that it stands in. -/
def skipOutward (enclosures : List Enclosure) (text : List Char) :
    Option (List Char) :=
  match enclosures with
  | [] => some text
  | .list :: outer =>
      match _start : Text.skipGap text with
      | ']' :: rest => skipOutward outer rest
      | ',' :: rest => skipWithin (.list :: outer) rest
      | _ => none
  | .object :: outer =>
      match _start : Text.skipGap text with
      | '\x7d' :: rest => skipOutward outer rest
      | ',' :: member =>
          match _key : skipKey (Text.skipGap member) with
          | some rest => skipWithin (.object :: outer) rest
          | none => none
      | _ => none
termination_by text.length
decreasing_by
  · exact Text.length_lt_of_skipGap _start
  · exact Text.length_lt_of_skipGap _start
  · exact Text.length_lt_of_skipGap _start
  · have outside := Text.length_lt_of_skipGap _start
    have inside := length_of_skipKey _key
    have gap := Text.length_skipGap_le member
    omega

end

/-- Skip one value. -/
def skipValue (text : List Char) : Option (List Char) :=
  skipWithin [] text

theorem length_of_skip (bound : Nat) (enclosures : List Enclosure)
    (text rest : List Char) (short : text.length < bound) :
    (skipWithin enclosures text = some rest → rest.length < text.length) ∧
      (skipOutward enclosures text = some rest → rest.length ≤ text.length) := by
  induction bound generalizing enclosures text with
  | zero => omega
  | succ bound induction =>
      constructor
      · intro skip
        rw [skipWithin] at skip
        split at skip
        · rename_i inner start
          have outside := Text.length_lt_of_skipGap start
          split at skip
          · rename_i after first
            have inside := Text.length_lt_of_skipGap first
            have outward := (induction enclosures after (by omega)).2 skip
            omega
          · have within := (induction (.list :: enclosures) inner (by omega)).1 skip
            omega
        · rename_i inner start
          have outside := Text.length_lt_of_skipGap start
          split at skip
          · rename_i after first
            have inside := Text.length_lt_of_skipGap first
            have outward := (induction enclosures after (by omega)).2 skip
            omega
          · have gap := Text.length_skipGap_le inner
            split at skip
            · rename_i after member
              have inside := length_of_skipKey member
              have within := (induction (.object :: enclosures) after (by omega)).1 skip
              omega
            · contradiction
        · have gap := Text.length_skipGap_le text
          split at skip
          · rename_i after scalar
            have inside := length_of_skipScalar scalar
            have outward := (induction enclosures after (by omega)).2 skip
            omega
          · contradiction
      · intro skip
        rw [skipOutward.eq_def] at skip
        split at skip
        · simp_all
        · rename_i outer
          split at skip
          · rename_i after start
            have outside := Text.length_lt_of_skipGap start
            have outward := (induction outer after (by omega)).2 skip
            omega
          · rename_i after start
            have outside := Text.length_lt_of_skipGap start
            have within := (induction (.list :: outer) after (by omega)).1 skip
            omega
          · contradiction
        · rename_i outer
          split at skip
          · rename_i after start
            have outside := Text.length_lt_of_skipGap start
            have outward := (induction outer after (by omega)).2 skip
            omega
          · rename_i member start
            have outside := Text.length_lt_of_skipGap start
            have gap := Text.length_skipGap_le member
            split at skip
            · rename_i after key
              have inside := length_of_skipKey key
              have within := (induction (.object :: outer) after (by omega)).1 skip
              omega
            · contradiction
          · contradiction

theorem length_of_skipValue {text rest : List Char}
    (skip : skipValue text = some rest) : rest.length < text.length :=
  (length_of_skip (text.length + 1) [] text rest (Nat.lt_succ_self _)).1 skip

end Rebac.Json
