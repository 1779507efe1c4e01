import Mathlib.Data.List.Basic
import Rebac.Proofs.Relation.Unclosed

/-!
# Lists between brackets

A list of direct user types can be read by itself or as a definition that consists of
nothing else, if brackets are put around it.  No bracket stands within a list, and at most
one clause of a definition is a list.  So a definition that starts and ends with a bracket
is a single list, and both ways of reading accept the same texts with the same entries.
-/

namespace Rebac.Relation

def Token.isBracket : Token → Bool
  | .openList => true
  | .closeList => true
  | _ => false

variable {tokens front inner rest : List Token} {entry : UserType}
  {entries : List UserType} {clause : Clause} {clauses : List Clause}
  {connectives : List Connective}

theorem IsEntry.not_isBracket (isEntry : IsEntry tokens entry) :
    ∀ token ∈ tokens, token.isBracket = false := by
  cases isEntry with
  | mk subject conditioned =>
      cases subject <;> cases conditioned <;> simp [Token.isBracket]

theorem AreEntries.not_isBracket (areEntries : AreEntries tokens entries) :
    ∀ token ∈ tokens, token.isBracket = false := by
  induction areEntries with
  | last isEntry => exact isEntry.not_isBracket
  | more isEntry _ induction =>
      intro token member
      rcases List.mem_append.mp member with first | behind
      · exact isEntry.not_isBracket token first
      · rcases List.mem_cons.mp behind with rfl | later
        · rfl
        · exact induction token later

theorem IsList.not_isBracket (isList : IsList (inner ++ [.closeList]) entries) :
    ∀ token ∈ inner, token.isBracket = false := by
  generalize whole : inner ++ [Token.closeList] = tokens at isList
  cases isList with
  | empty =>
      obtain rfl : inner = [] := by simpa using whole
      intro token member
      cases member
  | filled areEntries =>
      obtain ⟨rfl, _⟩ := List.append_inj' whole rfl
      exact areEntries.not_isBracket

theorem IsClause.exists_isList (isClause : IsClause (.openList :: rest) clause) :
    ∃ entries, IsList rest entries ∧
      clause = { rule := .direct, entries := some entries } := by
  cases isClause with
  | list isList => exact ⟨_, isList, rfl⟩

theorem IsClause.isSome_of_closeList (isClause : IsClause tokens clause)
    (last : tokens.getLast? = some .closeList) : clause.entries.isSome = true := by
  cases isClause with
  | list isList => rfl
  | through tupleset relation => cases last
  | computed relation => cases last

theorem Joins.getLast?_append {later : List Token} (joins : Joins later clauses connectives)
    (connective : Connective) (front : List Token) :
    (front ++ (connective.tokens ++ later)).getLast? = later.getLast? := by
  have filled : connective.tokens ++ later ≠ [] :=
    List.append_ne_nil_of_right_ne_nil _ joins.ne_nil
  rw [List.getLast?_append_of_ne_nil front filled,
    List.getLast?_append_of_ne_nil connective.tokens joins.ne_nil]

theorem Joins.countP_of_closeList (joins : Joins tokens clauses connectives)
    (last : tokens.getLast? = some .closeList) :
    0 < clauses.countP (·.entries.isSome) := by
  induction joins with
  | last isClause => simp [isClause.isSome_of_closeList last]
  | more connective isClause joins induction =>
      rw [joins.getLast?_append] at last
      rw [List.countP_cons]
      exact Nat.lt_of_lt_of_le (induction last) (Nat.le_add_right _ _)

/-- A definition that starts and ends with a bracket is a single list. -/
theorem Joins.exists_isList (joins : Joins (.openList :: rest) clauses connectives)
    (last : (Token.openList :: rest).getLast? = some .closeList)
    (single : clauses.countP (·.entries.isSome) ≤ 1) :
    ∃ entries, IsList rest entries ∧
      clauses = [{ rule := .direct, entries := some entries }] := by
  generalize whole : Token.openList :: rest = tokens at joins last
  cases joins with
  | last isClause =>
      subst whole
      obtain ⟨entries, isList, rfl⟩ := isClause.exists_isList
      exact ⟨entries, isList, rfl⟩
  | more connective isClause joins =>
      rename_i first later clause clauses connectives
      -- The first clause is a list, and the last one would be another.
      rw [joins.getLast?_append] at last
      have another := joins.countP_of_closeList last
      obtain ⟨token, own, rfl⟩ := List.exists_cons_of_ne_nil isClause.ne_nil
      obtain ⟨rfl, _⟩ := List.cons.inj whole
      obtain ⟨entries, _, rfl⟩ := isClause.exists_isList
      rw [List.countP_cons_of_pos (by rfl)] at single
      omega

variable {text : List Char}

theorem splits_mark_iff {character : Char} {token : Token}
    (mark : Token.ofMark? character = some token) :
    Splits (character :: text) tokens ↔ ∃ later, Splits text later ∧ tokens = token :: later := by
  constructor
  · intro splits
    have cut := tokenize_eq_ok_iff.mpr splits
    obtain ⟨noName, noGap⟩ := isNameCharacter_of_ofMark? mark
    rw [tokenize, tokenizeFrom] at cut
    simp only [noGap, noName, mark, Bool.false_eq_true, if_false] at cut
    obtain ⟨later, cutLater, rfl⟩ := map_eq_ok_iff.mp cut
    exact ⟨later, splits_of_tokenizeFrom cutLater, rfl⟩
  · rintro ⟨later, splits, rfl⟩
    exact .mark mark splits

theorem splits_bracketed_iff :
    Splits ('[' :: text ++ [']']) tokens ↔
      ∃ inner, Splits text inner ∧ tokens = .openList :: (inner ++ [.closeList]) := by
  have opening : Token.ofMark? '[' = some .openList := by decide
  have closing : Token.ofMark? ']' = some .closeList := by decide
  rw [splits_append_iff (endsWord_cons (by decide) [])]
  constructor
  · rintro ⟨before, after, openSplits, closeSplits, rfl⟩
    obtain ⟨inner, splits, rfl⟩ := (splits_mark_iff opening).mp openSplits
    obtain ⟨nothing, empty, rfl⟩ := (splits_mark_iff closing).mp closeSplits
    obtain rfl := empty.eq_nil_of_allBlank Text.allBlank_nil
    exact ⟨inner, splits, rfl⟩
  · rintro ⟨inner, splits, rfl⟩
    exact ⟨.openList :: inner, [.closeList], .mark opening splits, .mark closing .nil, rfl⟩

theorem Splits.mem_of_ofMark? (splits : Splits text tokens) {character : Char} {token : Token}
    (mark : Token.ofMark? character = some token) (member : character ∈ text) :
    token ∈ tokens := by
  obtain ⟨noName, noGap⟩ := isNameCharacter_of_ofMark? mark
  have noWord : ∀ {word : List Char},
      (∀ other ∈ word, isNameCharacter other = true) → character ∉ word := by
    intro word characters inWord
    rw [characters character inWord] at noName
    cases noName
  induction splits with
  | nil => cases member
  | gap gap _ induction =>
      rcases List.mem_cons.mp member with rfl | later
      · rw [gap] at noGap
        cases noGap
      · exact induction later
  | mark otherMark _ induction =>
      rcases List.mem_cons.mp member with rfl | later
      · obtain rfl := Option.some.inj (mark.symm.trans otherMark)
        exact List.mem_cons_self
      · exact List.mem_cons_of_mem _ (induction later)
  | keyword keyword _ _ induction =>
      rcases List.mem_append.mp member with inWord | later
      · exact absurd inWord (noWord keyword.spelling_word.2)
      · exact List.mem_cons_of_mem _ (induction later)
  | name valid _ _ induction =>
      rcases List.mem_append.mp member with inWord | later
      · exact absurd inWord (noWord (isName_iff.mp valid).2.1)
      · exact List.mem_cons_of_mem _ (induction later)

theorem listOfText_eq_ok_iff :
    UserType.listOfText text = .ok entries ↔
      ∃ inner, Splits (Text.trim text) inner ∧ IsList (inner ++ [.closeList]) entries := by
  constructor
  · intro read
    unfold UserType.listOfText at read
    simp only at read
    split at read
    · cases read
    · rename_i tokens cut
      obtain ⟨inner, splits, rfl⟩ := splits_bracketed_iff.mp (tokenize_eq_ok_iff.mp cut)
      split at read
      · cases read
      · rename_i found list
        obtain rfl := Except.ok.inj read
        obtain ⟨front, whole, isList⟩ := Relation.exists_isList list
        rw [List.tail_cons, List.append_nil] at whole
        exact ⟨inner, splits, whole ▸ isList⟩
      · cases read
  · rintro ⟨inner, splits, isList⟩
    have cut := tokenize_eq_ok_iff.mpr (splits_bracketed_iff.mpr ⟨inner, splits, rfl⟩)
    have list : readList (inner ++ [.closeList] ++ []) = .ok (entries, []) :=
      readList_of_isList isList
    rw [List.append_nil] at list
    unfold UserType.listOfText
    simp only [cut, List.tail_cons, list]

/-- A definition between brackets is read exactly if the tokens between them are
entries, and then as direct assignment to these. -/
theorem ofText_bracketed_eq_ok_iff {body : Body} :
    Body.ofText ('[' :: text ++ [']']) = .ok body ↔
      ∃ inner entries, Splits text inner ∧ IsList (inner ++ [.closeList]) entries ∧
        body = { rule := .direct, userTypes := entries } := by
  have trimmed : Text.trim ('[' :: text ++ [']']) = '[' :: text ++ [']'] :=
    Text.trim_of_isTight (Text.isTight_enclosed text (by decide) (by decide))
  constructor
  · intro read
    obtain ⟨tokens, clauses, connectives, splits, joins, _, single, rfl⟩ :=
      exists_joins_of_ofText read
    rw [trimmed] at splits
    obtain ⟨inner, innerSplits, rfl⟩ := splits_bracketed_iff.mp splits
    have last : (Token.openList :: (inner ++ [Token.closeList])).getLast? =
        some .closeList := by
      rw [← List.cons_append, List.getLast?_concat]
    obtain ⟨entries, isList, rfl⟩ := joins.exists_isList last single
    exact ⟨inner, entries, innerSplits, isList, rfl⟩
  · rintro ⟨inner, entries, splits, isList, rfl⟩
    have wholeSplits : Splits (Text.trim ('[' :: text ++ [']']))
        (.openList :: (inner ++ [.closeList])) := by
      rw [trimmed]
      exact splits_bracketed_iff.mpr ⟨inner, splits, rfl⟩
    have joins : Joins (.openList :: (inner ++ [.closeList]))
        [{ rule := .direct, entries := some entries }] [] :=
      .last (.list isList)
    have single : Rule.ofLeaves [.direct] = .direct := rfl
    rw [ofText_of_joins wholeSplits joins (by simp)]
    simp [single]

/-- Reading a list by itself and reading it as a definition, with brackets around it,
succeed for the same texts and yield the same entries.  Whatever definition the bracketed
text is read as, it is this list, and the text holds no brackets of its own. -/
theorem listOfText_agrees_with_ofText (tight : Text.trim text = text) :
    (∀ entries, UserType.listOfText text = .ok entries ↔
      Body.ofText ('[' :: text ++ [']']) =
        .ok { rule := .direct, userTypes := entries }) ∧
      ∀ body, Body.ofText ('[' :: text ++ [']']) = .ok body →
        body.rule = .direct ∧ '[' ∉ text ∧ ']' ∉ text := by
  constructor
  · intro entries
    rw [listOfText_eq_ok_iff, ofText_bracketed_eq_ok_iff, tight]
    constructor
    · rintro ⟨inner, splits, isList⟩
      exact ⟨inner, entries, splits, isList, rfl⟩
    · rintro ⟨inner, others, splits, isList, same⟩
      obtain rfl : entries = others := congrArg Body.userTypes same
      exact ⟨inner, splits, isList⟩
  · intro body read
    obtain ⟨inner, entries, splits, isList, rfl⟩ := ofText_bracketed_eq_ok_iff.mp read
    refine ⟨rfl, ?_, ?_⟩
    · intro member
      have opening : Token.ofMark? '[' = some .openList := by decide
      have outside := isList.not_isBracket _ (splits.mem_of_ofMark? opening member)
      cases outside
    · intro member
      have closing : Token.ofMark? ']' = some .closeList := by decide
      have outside := isList.not_isBracket _ (splits.mem_of_ofMark? closing member)
      cases outside

/-- A list with uneven gaps. -/
def unevenList : List Char :=
  "user ,group # member\twith c,user: *".toList

def unevenEntries : List UserType :=
  [UserType.plain "user",
    { UserType.plain "group" with relation := some "member", condition := some "c" },
    { UserType.plain "user" with wildcard := true }]

theorem listOfText_agrees_with_ofText_uneven :
    (Text.trim unevenList = unevenList ∧
      UserType.listOfText unevenList = .ok unevenEntries) ∧
      Body.ofText ('[' :: unevenList ++ [']']) =
        .ok { rule := .direct, userTypes := unevenEntries } := by
  have tight : Text.trim unevenList = unevenList := by decide
  have read : UserType.listOfText unevenList = .ok unevenEntries := by decide +kernel
  exact ⟨⟨tight, read⟩, ((listOfText_agrees_with_ofText tight).1 unevenEntries).mp read⟩

end Rebac.Relation
