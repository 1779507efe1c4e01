import Rebac.Proofs.Relation.Language
import Rebac.Proofs.Text.Trim

/-!
# Definitions that are cut off

A text splits at every place where no word continues.  In a definition a hash stands
only behind a type name in the list, so what stands in front of it is a definition whose
list is never closed.
-/

namespace Rebac.Relation

theorem EndsWord.append {left right : List Char} (leftEnds : EndsWord left)
    (rightEnds : EndsWord right) : EndsWord (left ++ right) := by
  cases left with
  | nil => exact rightEnds
  | cons character left => exact endsWord_cons (leftEnds character rfl) _

theorem EndsWord.left {left right : List Char} (ends : EndsWord (left ++ right)) :
    EndsWord left := by
  intro character first
  apply ends
  rw [List.head?_append, first]
  rfl

theorem endsWord_of_allBlank {text : List Char} (blank : Text.AllBlank text) :
    EndsWord text := by
  intro character first
  cases name : isNameCharacter character with
  | false => rfl
  | true =>
      have solid := not_isBlank_of_isNameCharacter name
      rw [blank character (List.mem_of_head? first)] at solid
      cases solid

private theorem exists_of_word_append {word text left right : List Char}
    (characters : ∀ character ∈ word, isNameCharacter character = true)
    (ends : EndsWord right) (filled : left ≠ [])
    (same : word ++ text = left ++ right) :
    ∃ rest, left = word ++ rest ∧ text = rest ++ right := by
  rcases List.append_eq_append_iff.mp same with ⟨rest, rfl, rfl⟩ | ⟨rest, rfl, rfl⟩
  · exact ⟨rest, rfl, rfl⟩
  · cases rest with
    | nil => exact ⟨[], by simp, rfl⟩
    | cons character rest =>
        have name := characters character (by simp)
        rw [ends character rfl] at name
        cases name

theorem Splits.append {left right : List Char} {before after : List Token}
    (leftSplits : Splits left before) (ends : EndsWord right)
    (rightSplits : Splits right after) : Splits (left ++ right) (before ++ after) := by
  induction leftSplits with
  | nil => exact rightSplits
  | gap gap _ induction => exact .gap gap induction
  | mark mark _ induction => exact .mark mark induction
  | keyword keyword wordEnds _ induction =>
      rw [List.append_assoc]
      exact .keyword keyword (wordEnds.append ends) induction
  | name valid wordEnds _ induction =>
      rw [List.append_assoc]
      exact .name valid (wordEnds.append ends) induction

private theorem exists_splits {left right : List Char} {tokens : List Token}
    (ends : EndsWord right) (splits : Splits (left ++ right) tokens) :
    ∃ before after, Splits left before ∧ Splits right after ∧
      tokens = before ++ after := by
  generalize whole : left ++ right = text at splits
  induction splits generalizing left with
  | nil =>
      obtain ⟨rfl, rfl⟩ := List.append_eq_nil_iff.mp whole
      exact ⟨[], [], .nil, .nil, rfl⟩
  | gap gap splits induction =>
      cases left with
      | nil =>
          subst whole
          exact ⟨[], _, .nil, .gap gap splits, rfl⟩
      | cons first left =>
          obtain ⟨rfl, rest⟩ := List.cons.inj whole
          obtain ⟨before, after, leftSplits, rightSplits, rfl⟩ := induction rest
          exact ⟨before, after, .gap gap leftSplits, rightSplits, rfl⟩
  | mark mark splits induction =>
      cases left with
      | nil =>
          subst whole
          exact ⟨[], _, .nil, .mark mark splits, rfl⟩
      | cons first left =>
          obtain ⟨rfl, rest⟩ := List.cons.inj whole
          obtain ⟨before, after, leftSplits, rightSplits, rfl⟩ := induction rest
          exact ⟨_ :: before, after, .mark mark leftSplits, rightSplits, rfl⟩
  | keyword keyword wordEnds splits induction =>
      by_cases empty : left = []
      · subst empty whole
        exact ⟨[], _, .nil, .keyword keyword wordEnds splits, rfl⟩
      · obtain ⟨rest, rfl, rfl⟩ :=
          exists_of_word_append keyword.spelling_word.2 ends empty whole.symm
        obtain ⟨before, after, leftSplits, rightSplits, rfl⟩ := induction rfl
        exact ⟨_ :: before, after, .keyword keyword wordEnds.left leftSplits, rightSplits,
          rfl⟩
  | name valid wordEnds splits induction =>
      by_cases empty : left = []
      · subst empty whole
        exact ⟨[], _, .nil, .name valid wordEnds splits, rfl⟩
      · obtain ⟨rest, rfl, rfl⟩ :=
          exists_of_word_append (isName_iff.mp valid).2.1 ends empty whole.symm
        obtain ⟨before, after, leftSplits, rightSplits, rfl⟩ := induction rfl
        exact ⟨_ :: before, after, .name valid wordEnds.left leftSplits, rightSplits, rfl⟩

/-- At a place where no word continues, the two parts of a text split by themselves. -/
theorem splits_append_iff {left right : List Char} {tokens : List Token}
    (ends : EndsWord right) :
    Splits (left ++ right) tokens ↔
      ∃ before after, Splits left before ∧ Splits right after ∧
        tokens = before ++ after := by
  constructor
  · exact exists_splits ends
  · rintro ⟨before, after, leftSplits, rightSplits, rfl⟩
    exact leftSplits.append ends rightSplits

theorem Splits.eq_nil_of_allBlank {text : List Char} {tokens : List Token}
    (splits : Splits text tokens) (blank : Text.AllBlank text) : tokens = [] := by
  have solidWord : ∀ {word rest : List Char}, word ≠ [] →
      (∀ character ∈ word, isNameCharacter character = true) →
        ¬Text.AllBlank (word ++ rest) := by
    intro word rest filled characters blank
    obtain ⟨first, word, rfl⟩ := List.exists_cons_of_ne_nil filled
    have solid := not_isBlank_of_isNameCharacter (characters first (by simp))
    rw [blank first (by simp)] at solid
    cases solid
  induction splits with
  | nil => rfl
  | gap _ _ induction => exact induction blank.tail
  | mark mark _ _ =>
      rename_i character _ _ _ _ _
      have blankMark := blank character List.mem_cons_self
      unfold Token.ofMark? at mark
      split at mark <;> first | exact absurd blankMark (by decide) | cases mark
  | keyword keyword _ _ _ =>
      exact absurd blank (solidWord keyword.spelling_word.1 keyword.spelling_word.2)
  | name valid _ _ _ =>
      obtain ⟨filled, characters, _⟩ := isName_iff.mp valid
      exact absurd blank (solidWord filled characters)

theorem Splits.exists_of_hash {text : List Char} {tokens : List Token}
    (splits : Splits ('#' :: text) tokens) : ∃ later, tokens = .hash :: later := by
  have cut := tokenize_eq_ok_iff.mpr splits
  rw [tokenize, tokenizeFrom] at cut
  obtain ⟨later, _, rfl⟩ := map_eq_ok_iff.mp cut
  exact ⟨later, rfl⟩

/-- What stands in front of a hash splits by itself, without the blanks around it. -/
theorem Splits.exists_front {front rest : List Char} {tokens : List Token}
    (splits : Splits (Text.trim (front ++ '#' :: rest)) tokens) :
    ∃ before after, Splits (Text.trim front) before ∧ tokens = before ++ .hash :: after := by
  have solid : Text.isBlank '#' = false := by decide
  have hashEnds : ∀ text, EndsWord ('#' :: text) := endsWord_cons (by decide)
  obtain ⟨blanks, blank, shape⟩ := Text.exists_trimEnd (Text.trimStart front)
  have whole : Text.trim (front ++ '#' :: rest) =
      Text.trim front ++ (blanks ++ '#' :: Text.trimEnd rest) := by
    rw [Text.trim, Text.trimStart_append solid, Text.trimEnd_append solid,
      ← List.append_assoc]
    exact congrArg (· ++ _) shape
  rw [whole] at splits
  obtain ⟨before, _, frontSplits, behind, rfl⟩ :=
    (splits_append_iff ((endsWord_of_allBlank blank).append (hashEnds _))).mp splits
  obtain ⟨nothing, _, onlyBlanks, hashSplits, rfl⟩ :=
    (splits_append_iff (hashEnds _)).mp behind
  obtain rfl := onlyBlanks.eq_nil_of_allBlank blank
  obtain ⟨later, rfl⟩ := hashSplits.exists_of_hash
  exact ⟨before, later, frontSplits, rfl⟩

section Lists

variable {before after : List Token} {entry : UserType} {entries : List UserType}
  {clause : Clause} {clauses : List Clause} {connectives : List Connective}

private theorem hash_cases {first later : List Token} {separator : Token}
    (different : separator ≠ .hash)
    (split : first ++ separator :: later = before ++ .hash :: after) :
    (∃ rest, first = before ++ .hash :: rest) ∨
      ∃ front, before = first ++ separator :: front ∧ later = front ++ .hash :: after := by
  rcases List.append_eq_append_iff.mp split with ⟨middle, rfl, shape⟩ | ⟨middle, rfl, shape⟩
  · cases middle with
    | nil => exact absurd (List.cons.inj shape).1 different
    | cons token middle =>
        obtain ⟨rfl, rfl⟩ := List.cons.inj shape
        exact .inr ⟨middle, rfl, rfl⟩
  · cases middle with
    | nil => exact absurd (List.cons.inj shape).1.symm different
    | cons token middle =>
        obtain ⟨rfl, rfl⟩ := List.cons.inj shape
        exact .inl ⟨middle, rfl⟩

/-- In an entry, a hash stands right behind the type name. -/
theorem IsEntry.eq_of_hash (isEntry : IsEntry (before ++ .hash :: after) entry) :
    ∃ typeName, before = [.name typeName] := by
  generalize whole : before ++ .hash :: after = tokens at isEntry
  cases isEntry with
  | mk subject conditioned =>
      rename_i typeName subjectTokens conditionTokens _
      cases before with
      | nil => cases whole
      | cons first before =>
          obtain ⟨rfl, rest⟩ := List.cons.inj whole
          cases before with
          | nil => exact ⟨typeName, rfl⟩
          | cons second before =>
              have member : Token.hash ∈ (subjectTokens ++ conditionTokens).tail := by
                rw [← rest]
                simp
              cases subject <;> cases conditioned <;> simp at member

theorem readEntries_unclosed (areEntries : AreEntries (before ++ .hash :: after) entries) :
    readEntries before = .error .unclosed ∧
      ∃ typeName rest, before = .name typeName :: rest := by
  generalize whole : before ++ .hash :: after = tokens at areEntries
  induction areEntries generalizing before with
  | last isEntry =>
      subst whole
      obtain ⟨typeName, rfl⟩ := isEntry.eq_of_hash
      refine ⟨?_, typeName, [], rfl⟩
      rw [readEntries]
      rfl
  | more isEntry areEntries induction =>
      rcases hash_cases (by decide) whole.symm with ⟨rest, rfl⟩ | ⟨front, rfl, rfl⟩
      · obtain ⟨typeName, rfl⟩ := isEntry.eq_of_hash
        refine ⟨?_, typeName, [], rfl⟩
        rw [readEntries]
        rfl
      · obtain ⟨unclosed, _⟩ := induction rfl
        have read := readEntry_of_isEntry isEntry ⟨front, Or.inl rfl⟩
        constructor
        · rw [readEntries]
          split <;> simp_all
        · cases isEntry
          exact ⟨_, _, rfl⟩

theorem readList_unclosed (isList : IsList (before ++ .hash :: after) entries) :
    readList before = .error .unclosed := by
  generalize whole : before ++ .hash :: after = tokens at isList
  cases isList with
  | empty =>
      cases before with
      | nil => cases whole
      | cons first before => simp at whole
  | filled areEntries =>
      rcases hash_cases (by decide) whole.symm with ⟨rest, rfl⟩ | ⟨front, _, shape⟩
      · obtain ⟨unclosed, typeName, later, rfl⟩ := readEntries_unclosed areEntries
        exact unclosed
      · simp at shape

theorem readClause_unclosed (isClause : IsClause (before ++ .hash :: after) clause) :
    readClause before = .error (.invalidList .unclosed) ∧ clause.entries.isSome = true := by
  generalize whole : before ++ .hash :: after = tokens at isClause
  have member : Token.hash ∈ tokens := by simp [← whole]
  cases isClause with
  | list isList =>
      cases before with
      | nil => cases whole
      | cons first before =>
          obtain ⟨rfl, rfl⟩ := List.cons.inj whole
          rw [readClause, readList_unclosed isList]
          exact ⟨rfl, rfl⟩
  | through tupleset relation => simp at member
  | computed relation => simp at member

theorem readClauses_of_readClause {listed : Bool} {tokens : List Token} {fault : Fault}
    (failed : readClause tokens = .error fault) :
    readClauses listed tokens = .error fault := by
  rw [readClauses]
  split <;> simp_all

theorem ne_nil_of_unclosed {listed : Bool} {tokens : List Token}
    (unclosed : readClauses listed tokens = .error (.invalidList .unclosed)) :
    tokens ≠ [] := by
  rintro rfl
  rw [readClauses_of_readClause (rfl : readClause [] = _)] at unclosed
  cases unclosed

theorem readClauses_unclosed {listed : Bool}
    (joins : Joins (before ++ .hash :: after) clauses connectives)
    (supported : ∀ connective ∈ connectives, connective = .or)
    (single : listed.toNat + clauses.countP (·.entries.isSome) ≤ 1) :
    readClauses listed before = .error (.invalidList .unclosed) := by
  generalize whole : before ++ .hash :: after = tokens at joins
  induction joins generalizing before listed with
  | last isClause =>
      subst whole
      exact readClauses_of_readClause (readClause_unclosed isClause).1
  | more connective isClause joins induction =>
      obtain rfl := supported connective List.mem_cons_self
      rcases hash_cases (by decide) whole.symm with ⟨rest, rfl⟩ | ⟨front, rfl, rfl⟩
      · exact readClauses_of_readClause (readClause_unclosed isClause).1
      · obtain ⟨allowed, room⟩ := single_cons_iff.mp single
        have later := induction (fun other member => supported other (by simp [member])) room
          rfl
        have filled := ne_nil_of_unclosed later
        rw [readClauses_or isClause allowed filled, later]
        rfl

end Lists

/-- What stands in front of a hash in a definition is a definition whose list is never
closed. -/
theorem ofText_unclosed {front rest : List Char} {body : Body}
    (read : Body.ofText (front ++ '#' :: rest) = .ok body) :
    Body.ofText front =
      .error { source := String.ofList (Text.trim front)
               fault := .invalidList .unclosed } := by
  obtain ⟨tokens, clauses, connectives, splits, joins, supported, single, rfl⟩ :=
    exists_joins_of_ofText read
  obtain ⟨before, after, frontSplits, rfl⟩ := splits.exists_front
  have unclosed : readClauses false before = .error (.invalidList .unclosed) :=
    readClauses_unclosed joins supported (by simpa using single)
  have filled : (Text.trim front).isEmpty = false := by
    simpa using frontSplits.ne_nil (ne_nil_of_unclosed unclosed)
  unfold Body.ofText
  simp only [filled, tokenize_eq_ok_iff.mpr frontSplits, unclosed, Bool.false_eq_true,
    if_false]

end Rebac.Relation
