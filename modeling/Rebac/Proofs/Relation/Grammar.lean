import Rebac.Relation.Parser

/-!
# The grammar of relation definitions

A definition is a row of clauses with a connective between any two of them.  A clause
is a bracketed list of entries, `relation from tupleset`, or the name of a relation.
The reader follows this grammar: it accepts the rows whose connectives are all `or` and
which hold at most one list, and it refuses the first other connective by name.
-/

namespace Rebac.Relation

/-- What may qualify the type name of an entry. -/
inductive IsSubject (typeName : String) : List Token → UserType → Prop where
  | objects : IsSubject typeName [] (UserType.plain typeName)
  | members (relation : String) :
      IsSubject typeName [.hash, .name relation]
        { UserType.plain typeName with relation := some relation }
  | everyone :
      IsSubject typeName [.colon, .star]
        { UserType.plain typeName with wildcard := true }

/-- The condition that an entry may carry. -/
inductive IsConditioned (entry : UserType) : List Token → UserType → Prop where
  | always : IsConditioned entry [] entry
  | under (condition : String) :
      IsConditioned entry [.keyword .withWord, .name condition]
        { entry with condition := some condition }

inductive IsEntry : List Token → UserType → Prop where
  | mk {typeName : String} {subject condition : List Token} {plain entry : UserType} :
      IsSubject typeName subject plain → IsConditioned plain condition entry →
      IsEntry (.name typeName :: (subject ++ condition)) entry

/-- Entries with commas between them. -/
inductive AreEntries : List Token → List UserType → Prop where
  | last {tokens : List Token} {entry : UserType} :
      IsEntry tokens entry → AreEntries tokens [entry]
  | more {tokens later : List Token} {entry : UserType} {entries : List UserType} :
      IsEntry tokens entry → AreEntries later entries →
      AreEntries (tokens ++ .comma :: later) (entry :: entries)

/-- A list behind its opening bracket. -/
inductive IsList : List Token → List UserType → Prop where
  | empty : IsList [.closeList] []
  | filled {tokens : List Token} {entries : List UserType} :
      AreEntries tokens entries → IsList (tokens ++ [.closeList]) entries

inductive IsClause : List Token → Clause → Prop where
  | list {tokens : List Token} {entries : List UserType} :
      IsList tokens entries →
      IsClause (.openList :: tokens) { rule := .direct, entries := some entries }
  | through (tupleset relation : String) :
      IsClause [.name relation, .keyword .fromWord, .name tupleset]
        { rule := .through tupleset relation, entries := none }
  | computed (relation : String) :
      IsClause [.name relation] { rule := .computed relation, entries := none }

/-- The words that may stand between two clauses. -/
inductive Connective where
  | or
  | and
  | butNot
  deriving Repr, DecidableEq

namespace Connective

def tokens : Connective → List Token
  | .or => [.keyword .orWord]
  | .and => [.keyword .andWord]
  | .butNot => [.keyword .butWord, .keyword .notWord]

/-- The operator for which a connective is refused. -/
def operator? : Connective → Option UnsupportedOperator
  | .or => none
  | .and => some .intersection
  | .butNot => some .difference

end Connective

/-- Clauses with connectives between them. -/
inductive Joins : List Token → List Clause → List Connective → Prop where
  | last {tokens : List Token} {clause : Clause} :
      IsClause tokens clause → Joins tokens [clause] []
  | more (connective : Connective) {tokens later : List Token} {clause : Clause}
      {clauses : List Clause} {connectives : List Connective} :
      IsClause tokens clause → Joins later clauses connectives →
      Joins (tokens ++ (connective.tokens ++ later)) (clause :: clauses)
        (connective :: connectives)

variable {tokens front rest later : List Token} {entry qualified : UserType}
  {entries : List UserType} {clause : Clause} {clauses : List Clause}
  {connectives : List Connective}

theorem exists_isSubject {typeName : String}
    (read : readSubject typeName tokens = .ok (entry, rest)) :
    ∃ front, tokens = front ++ rest ∧ IsSubject typeName front entry := by
  unfold readSubject at read
  split at read
  · rename_i relation later
    obtain ⟨rfl, rfl⟩ := by simpa using read
    exact ⟨[.hash, .name relation], rfl, .members relation⟩
  · cases read
  · obtain ⟨rfl, rfl⟩ := by simpa using read
    exact ⟨[.colon, .star], rfl, .everyone⟩
  · cases read
  · obtain ⟨rfl, rfl⟩ := by simpa using read
    exact ⟨[], rfl, .objects⟩

theorem exists_isConditioned
    (read : readCondition entry tokens = .ok (qualified, rest)) :
    ∃ front, tokens = front ++ rest ∧ IsConditioned entry front qualified := by
  unfold readCondition at read
  split at read
  · rename_i condition later
    obtain ⟨rfl, rfl⟩ := by simpa using read
    exact ⟨[.keyword .withWord, .name condition], rfl, .under condition⟩
  · cases read
  · obtain ⟨rfl, rfl⟩ := by simpa using read
    exact ⟨[], rfl, .always⟩

theorem exists_isEntry (read : readEntry tokens = .ok (entry, rest)) :
    ∃ front, tokens = front ++ rest ∧ IsEntry front entry := by
  unfold readEntry at read
  split at read
  · rename_i typeName later
    split at read
    · cases read
    · rename_i plain middle subjectRead
      obtain ⟨subject, rfl, isSubject⟩ := exists_isSubject subjectRead
      obtain ⟨condition, rfl, isConditioned⟩ := exists_isConditioned read
      refine ⟨.name typeName :: (subject ++ condition), ?_, .mk isSubject isConditioned⟩
      rw [List.cons_append, List.append_assoc]
  · cases read
  · cases read

theorem exists_areEntries (read : readEntries tokens = .ok (entries, rest)) :
    ∃ front, tokens = front ++ .closeList :: rest ∧ AreEntries front entries := by
  fun_induction readEntries tokens generalizing entries rest with
  | case1 => cases read
  | case2 => cases read
  | case3 tokens entry later found others last recursion induction =>
      obtain ⟨rfl, rfl⟩ := by simpa using read
      obtain ⟨first, rfl, isEntry⟩ := exists_isEntry found
      obtain ⟨behind, rfl, areEntries⟩ := induction recursion
      refine ⟨first ++ .comma :: behind, ?_, .more isEntry areEntries⟩
      rw [List.append_assoc, List.cons_append]
  | case4 tokens entry later found =>
      obtain ⟨rfl, rfl⟩ := by simpa using read
      obtain ⟨first, rfl, isEntry⟩ := exists_isEntry found
      exact ⟨first, rfl, .last isEntry⟩
  | case5 => cases read
  | case6 => cases read

theorem exists_isList (read : readList tokens = .ok (entries, rest)) :
    ∃ front, tokens = front ++ rest ∧ IsList front entries := by
  unfold readList at read
  split at read
  · obtain ⟨rfl, rfl⟩ := by simpa using read
    exact ⟨[.closeList], rfl, .empty⟩
  · obtain ⟨front, rfl, areEntries⟩ := exists_areEntries read
    refine ⟨front ++ [.closeList], ?_, .filled areEntries⟩
    rw [List.append_assoc, List.singleton_append]

theorem exists_isClause (read : readClause tokens = .ok (clause, rest)) :
    ∃ front, tokens = front ++ rest ∧ IsClause front clause := by
  unfold readClause at read
  split at read
  · split at read
    · cases read
    · rename_i later entries remaining listRead
      obtain ⟨rfl, rfl⟩ := by simpa using read
      obtain ⟨front, rfl, isList⟩ := exists_isList listRead
      exact ⟨.openList :: front, rfl, .list isList⟩
  · rename_i relation tupleset later
    obtain ⟨rfl, rfl⟩ := by simpa using read
    exact ⟨[.name relation, .keyword .fromWord, .name tupleset], rfl,
      .through tupleset relation⟩
  · cases read
  · cases read
  · rename_i relation later _ _ _
    obtain ⟨rfl, rfl⟩ := by simpa using read
    exact ⟨[.name relation], rfl, .computed relation⟩
  · cases read
  · cases read

/-- The first of some clauses is allowed behind what was read, and leaves room for the
others, exactly if there is at most one list among all of them. -/
theorem single_cons_iff {listed : Bool} :
    listed.toNat + (clause :: clauses).countP (·.entries.isSome) ≤ 1 ↔
      (listed && clause.entries.isSome) = false ∧
        (listed || clause.entries.isSome).toNat + clauses.countP (·.entries.isSome) ≤ 1 := by
  rw [List.countP_cons]
  cases listed <;> cases clause.entries.isSome <;>
    simp only [Bool.and_false, Bool.and_true, Bool.or_false, Bool.or_true,
      Bool.toNat_false, Bool.toNat_true, Bool.false_eq_true, reduceCtorEq, if_true,
      if_false, true_and, false_and, iff_false] <;> omega

theorem exists_joins {listed : Bool} (read : readClauses listed tokens = .ok clauses) :
    (∃ connectives, Joins tokens clauses connectives ∧
      ∀ connective ∈ connectives, connective = .or) ∧
      listed.toNat + clauses.countP (·.entries.isSome) ≤ 1 := by
  fun_induction readClauses listed tokens generalizing clauses with
  | case1 => cases read
  | case2 => cases read
  | case3 listed tokens clause allowed found =>
      obtain rfl : clauses = [clause] := by simpa using read.symm
      obtain ⟨front, rfl, isClause⟩ := exists_isClause found
      rw [List.append_nil]
      refine ⟨⟨[], .last isClause, by simp⟩, single_cons_iff.mpr ⟨?_, ?_⟩⟩
      · simpa using allowed
      · cases listed <;> cases clause.entries.isSome <;> simp_all
  | case4 => cases read
  | case5 => cases read
  | case6 listed tokens clause allowed rest _ _ later recursion found induction =>
      obtain rfl : clauses = clause :: later := by simpa using read.symm
      obtain ⟨front, rfl, isClause⟩ := exists_isClause found
      obtain ⟨⟨connectives, joins, supported⟩, single⟩ := induction recursion
      exact ⟨⟨.or :: connectives, .more .or isClause joins, by simpa using supported⟩,
        single_cons_iff.mpr ⟨by simpa using allowed, single⟩⟩
  | case7 => cases read

/-- Nothing that qualifies a type name. -/
def EndsSubject (rest : List Token) : Prop :=
  ∀ token, rest.head? = some token → token ≠ .hash ∧ token ≠ .colon

/-- What may follow an entry of a list. -/
def FollowsEntry (rest : List Token) : Prop :=
  ∃ later, rest = .comma :: later ∨ rest = .closeList :: later

/-- What may follow a clause. -/
def FollowsClause (rest : List Token) : Prop :=
  rest = [] ∨ ∃ (connective : Connective) (later : List Token),
    rest = connective.tokens ++ later

theorem readSubject_of_isSubject {typeName : String}
    (subject : IsSubject typeName front entry) (ends : EndsSubject rest) :
    readSubject typeName (front ++ rest) = .ok (entry, rest) := by
  cases subject with
  | members relation => rfl
  | everyone => rfl
  | objects =>
      cases rest with
      | nil => rfl
      | cons token later =>
          obtain ⟨noHash, noColon⟩ := ends token rfl
          cases token <;> first | rfl | contradiction

theorem readCondition_of_isConditioned (conditioned : IsConditioned entry front qualified)
    (follows : FollowsEntry rest) :
    readCondition entry (front ++ rest) = .ok (qualified, rest) := by
  cases conditioned with
  | under condition => rfl
  | always =>
      obtain ⟨later, rfl | rfl⟩ := follows
      · rfl
      · rfl

theorem endsSubject_of_isConditioned (conditioned : IsConditioned entry front qualified)
    (follows : FollowsEntry rest) : EndsSubject (front ++ rest) := by
  intro token first
  cases conditioned with
  | under condition =>
      obtain rfl : Token.keyword .withWord = token := by simpa using first
      simp
  | always =>
      obtain ⟨later, rfl | rfl⟩ := follows
      · obtain rfl : Token.comma = token := by simpa using first
        simp
      · obtain rfl : Token.closeList = token := by simpa using first
        simp

theorem readEntry_of_isEntry (isEntry : IsEntry front entry) (follows : FollowsEntry rest) :
    readEntry (front ++ rest) = .ok (entry, rest) := by
  cases isEntry with
  | mk subject conditioned =>
      have ends := endsSubject_of_isConditioned conditioned follows
      rw [List.cons_append, readEntry, List.append_assoc,
        readSubject_of_isSubject subject ends]
      exact readCondition_of_isConditioned conditioned follows

theorem readEntries_of_areEntries (areEntries : AreEntries front entries) :
    readEntries (front ++ .closeList :: rest) = .ok (entries, rest) := by
  induction areEntries with
  | last isEntry =>
      have read := readEntry_of_isEntry isEntry ⟨rest, Or.inr rfl⟩
      rw [readEntries]
      split <;> simp_all
  | more isEntry _ induction =>
      rename_i later _ _ _
      have read := readEntry_of_isEntry isEntry ⟨later ++ .closeList :: rest, Or.inl rfl⟩
      rw [List.append_assoc, List.cons_append, readEntries]
      split <;> simp_all

theorem readList_of_isList (isList : IsList front entries) :
    readList (front ++ rest) = .ok (entries, rest) := by
  cases isList with
  | empty => rfl
  | filled areEntries =>
      rename_i tokens
      have read : readEntries (tokens ++ .closeList :: rest) = .ok (entries, rest) :=
        readEntries_of_areEntries areEntries
      rw [List.append_assoc, List.singleton_append, readList]
      · exact read
      · cases areEntries with
        | last isEntry => cases isEntry; simp
        | more isEntry _ => cases isEntry; simp

theorem readClause_of_isClause (isClause : IsClause front clause)
    (follows : FollowsClause rest) :
    readClause (front ++ rest) = .ok (clause, rest) := by
  cases isClause with
  | list isList => rw [List.cons_append, readClause, readList_of_isList isList]
  | through tupleset relation => rfl
  | computed relation =>
      obtain rfl | ⟨connective, later, rfl⟩ := follows
      · rfl
      · cases connective with
        | or => rfl
        | and => rfl
        | butNot => rfl

theorem IsClause.ne_nil (isClause : IsClause tokens clause) : tokens ≠ [] := by
  cases isClause <;> simp

theorem Joins.ne_nil (joins : Joins tokens clauses connectives) : tokens ≠ [] := by
  cases joins with
  | last isClause => exact isClause.ne_nil
  | more _ isClause _ => exact List.append_ne_nil_of_left_ne_nil isClause.ne_nil _

theorem readClauses_last {listed : Bool} (isClause : IsClause tokens clause)
    (allowed : (listed && clause.entries.isSome) = false) :
    readClauses listed tokens = .ok [clause] := by
  have read := readClause_of_isClause isClause (Or.inl rfl)
  rw [List.append_nil] at read
  rw [readClauses]
  split
  · simp_all
  · rename_i found
    obtain ⟨rfl, rfl⟩ : clause = _ ∧ [] = _ := by simpa [read] using found
    simp [allowed]

theorem readClauses_or {listed : Bool} (isClause : IsClause front clause)
    (allowed : (listed && clause.entries.isSome) = false) (filled : later ≠ []) :
    readClauses listed (front ++ .keyword .orWord :: later) =
      (readClauses (listed || clause.entries.isSome) later).map (clause :: ·) := by
  have read := readClause_of_isClause isClause
    (Or.inr ⟨.or, later, rfl⟩ : FollowsClause (.keyword .orWord :: later))
  obtain ⟨token, later, rfl⟩ := List.exists_cons_of_ne_nil filled
  rw [readClauses]
  split
  · simp_all
  · rename_i found
    obtain ⟨rfl, rfl⟩ : clause = _ ∧ .keyword .orWord :: token :: later = _ := by
      simpa [read] using found
    simp only [allowed, Bool.false_eq_true, if_false]
    cases readClauses (listed || clause.entries.isSome) (token :: later) <;> rfl

theorem readClauses_refused {listed : Bool} (isClause : IsClause front clause)
    (allowed : (listed && clause.entries.isSome) = false) {connective : Connective}
    {operator : UnsupportedOperator} (refused : connective.operator? = some operator) :
    readClauses listed (front ++ (connective.tokens ++ later)) =
      .error (.unsupportedOperator operator) := by
  have read := readClause_of_isClause isClause
    (Or.inr ⟨connective, later, rfl⟩ : FollowsClause (connective.tokens ++ later))
  rw [readClauses]
  split
  · simp_all
  · rename_i found
    obtain ⟨rfl, rfl⟩ : clause = _ ∧ connective.tokens ++ later = _ := by
      simpa [read] using found
    cases connective <;> simp_all [Connective.operator?, Connective.tokens, refuse,
      Relation.operator?]

theorem findSome?_operator?_eq_none_iff :
    connectives.findSome? Connective.operator? = none ↔
      ∀ connective ∈ connectives, connective = .or := by
  rw [List.findSome?_eq_none_iff]
  apply forall₂_congr
  intro connective _
  cases connective <;> simp [Connective.operator?]

/-- A row of clauses is read up to its first unsupported connective. -/
theorem readClauses_of_joins {listed : Bool} (joins : Joins tokens clauses connectives)
    (single : listed.toNat + clauses.countP (·.entries.isSome) ≤ 1) :
    readClauses listed tokens =
      match connectives.findSome? Connective.operator? with
      | none => .ok clauses
      | some operator => .error (.unsupportedOperator operator) := by
  induction joins generalizing listed with
  | last isClause => exact readClauses_last isClause (single_cons_iff.mp single).1
  | more connective isClause joins induction =>
      rename_i connectives
      obtain ⟨allowed, later⟩ := single_cons_iff.mp single
      rw [List.findSome?_cons]
      cases refused : connective.operator? with
      | some operator => exact readClauses_refused isClause allowed refused
      | none =>
          obtain rfl : connective = .or := by
            cases connective <;> simp [Connective.operator?] at refused ⊢
          have read := readClauses_or isClause allowed joins.ne_nil
          rw [induction later] at read
          refine read.trans ?_
          cases connectives.findSome? Connective.operator? <;> rfl

/-- The clauses of a definition are read exactly if they form a row that is joined with
`or` and holds at most one list. -/
theorem readClauses_eq_ok_iff {listed : Bool} :
    readClauses listed tokens = .ok clauses ↔
      (∃ connectives, Joins tokens clauses connectives ∧
        ∀ connective ∈ connectives, connective = .or) ∧
        listed.toNat + clauses.countP (·.entries.isSome) ≤ 1 := by
  constructor
  · exact exists_joins
  · rintro ⟨⟨connectives, joins, supported⟩, single⟩
    rw [readClauses_of_joins joins single,
      findSome?_operator?_eq_none_iff.mpr supported]

end Rebac.Relation
