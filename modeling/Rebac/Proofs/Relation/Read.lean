import Rebac.Proofs.Relation.Language
import Rebac.Proofs.Relation.Printed

/-!
# What the reader of relations yields

The name tokens of a text are names of the relation language.  Hence a
definition that is read has a canonical rule whose relations are named, at most
one direct assignment, and entries that their written form spells out.
-/

namespace Rebac.Relation

/-- Tokens whose names are names of the relation language. -/
def AreNamed (tokens : List Token) : Prop :=
  ∀ name, .name name ∈ tokens → isName name = true

theorem AreNamed.of_subset {tokens part : List Token} (named : AreNamed tokens)
    (subset : part ⊆ tokens) : AreNamed part :=
  fun name member => named name (subset member)

theorem AreNamed.of_append {left right : List Token} (named : AreNamed (left ++ right)) :
    AreNamed left ∧ AreNamed right :=
  ⟨named.of_subset (List.subset_append_left left right),
    named.of_subset (List.subset_append_right left right)⟩

theorem AreNamed.of_cons {token : Token} {tokens : List Token}
    (named : AreNamed (token :: tokens)) : AreNamed tokens :=
  named.of_subset (List.subset_cons_self token tokens)

variable {tokens : List Token} {entry qualified : UserType} {entries : List UserType}
  {clause : Clause} {clauses : List Clause} {connectives : List Connective}

theorem IsSubject.isSpellable {typeName : String}
    (subject : IsSubject typeName tokens entry) (valid : isName typeName = true)
    (named : AreNamed tokens) : entry.IsSpellable := by
  cases subject with
  | objects => exact UserType.isSpellable_plain valid false
  | members relation =>
      refine ⟨valid, ?_, by simp [UserType.plain], by simp [UserType.plain]⟩
      intro other same
      obtain rfl : relation = other := by simpa using same
      exact named relation (by simp)
  | everyone => exact UserType.isSpellable_plain valid true

theorem IsConditioned.isSpellable (conditioned : IsConditioned entry tokens qualified)
    (spellable : entry.IsSpellable) (named : AreNamed tokens) : qualified.IsSpellable := by
  cases conditioned with
  | always => exact spellable
  | under condition =>
      refine ⟨spellable.typeName, spellable.relation, ?_, spellable.exclusive⟩
      intro other same
      obtain rfl : condition = other := by simpa using same
      exact named condition (by simp)

theorem IsEntry.isSpellable (isEntry : IsEntry tokens entry) (named : AreNamed tokens) :
    entry.IsSpellable := by
  cases isEntry with
  | mk subject conditioned =>
      rename_i typeName _ _ _
      obtain ⟨subjectNamed, conditionNamed⟩ := named.of_cons.of_append
      have plain := subject.isSpellable (named typeName List.mem_cons_self) subjectNamed
      exact conditioned.isSpellable plain conditionNamed

theorem AreEntries.isSpellable (areEntries : AreEntries tokens entries)
    (named : AreNamed tokens) : ∀ entry ∈ entries, entry.IsSpellable := by
  induction areEntries with
  | last isEntry => simpa using isEntry.isSpellable named
  | more isEntry _ induction =>
      obtain ⟨first, later⟩ := named.of_append
      intro other member
      rcases List.mem_cons.mp member with rfl | inOthers
      · exact isEntry.isSpellable first
      · exact induction later.of_cons other inOthers

theorem IsList.isSpellable (isList : IsList tokens entries) (named : AreNamed tokens) :
    ∀ entry ∈ entries, entry.IsSpellable := by
  cases isList with
  | empty => simp
  | filled areEntries => exact areEntries.isSpellable named.of_append.1

/-- A clause whose written form names everything that it holds. -/
structure Clause.IsSpellable (clause : Clause) : Prop where
  named : clause.rule.IsNamed
  entries : ∀ entries, clause.entries = some entries → ∀ entry ∈ entries, entry.IsSpellable

theorem IsClause.isSpellable (isClause : IsClause tokens clause)
    (named : AreNamed tokens) : clause.IsSpellable := by
  cases isClause with
  | list isList =>
      rename_i later entries
      refine ⟨trivial, ?_⟩
      intro others same
      obtain rfl : entries = others := by simpa using same
      exact isList.isSpellable named.of_cons
  | through tupleset relation =>
      exact ⟨⟨named tupleset (by simp), named relation (by simp)⟩, by simp⟩
  | computed relation => exact ⟨named relation (by simp), by simp⟩

theorem Joins.isSpellable (joins : Joins tokens clauses connectives)
    (named : AreNamed tokens) : ∀ clause ∈ clauses, clause.IsSpellable := by
  induction joins with
  | last isClause => simpa using isClause.isSpellable named
  | more _ isClause _ induction =>
      obtain ⟨first, later⟩ := named.of_append
      intro other member
      rcases List.mem_cons.mp member with rfl | inOthers
      · exact isClause.isSpellable first
      · exact induction later.of_append.2 other inOthers

theorem Joins.clauses_ne_nil (joins : Joins tokens clauses connectives) :
    clauses ≠ [] := by
  cases joins <;> simp

theorem Joins.isSpellable_ofClauses (joins : Joins tokens clauses connectives)
    (named : AreNamed tokens) (single : clauses.countP (·.entries.isSome) ≤ 1) :
    (Body.ofClauses clauses).rule.IsCanonical ∧
      (Body.ofClauses clauses).rule.IsSpellable (Body.ofClauses clauses).userTypes := by
  have spellable := joins.isSpellable named
  have count : (clauses.map (·.rule)).countP Rule.isDirect ≤ 1 := by
    rwa [joins.countP_isDirect]
  have leaves : (Body.ofClauses clauses).rule.leaves =
      Rule.directFirst (clauses.map (·.rule)) := Rule.leaves_unionOf joins.simple
  have userTypes : (Body.ofClauses clauses).userTypes =
      (clauses.filterMap (·.entries)).flatten := by
    rw [joins.ofClauses single]
  have perm := Rule.directFirst_perm (clauses.map (·.rule))
  have direct : (Body.ofClauses clauses).rule.directCount =
      clauses.countP (·.entries.isSome) := by
    rw [Rule.directCount_eq_countP, leaves, perm.countP_eq, joins.countP_isDirect]
  refine ⟨?_, ?_, ?_, ?_, ?_⟩
  · exact Rule.isCanonical_unionOf (by simpa using joins.clauses_ne_nil) joins.simple count
  · intro leaf member
    obtain ⟨clause, inClauses, rfl⟩ :=
      List.mem_map.mp (perm.subset (by rwa [leaves] at member))
    exact (spellable clause inClauses).named
  · rw [direct]
    exact single
  · intro unassigned
    rw [direct, List.countP_eq_zero] at unassigned
    have unlisted : clauses.filterMap (·.entries) = [] := by
      rw [List.filterMap_eq_nil_iff]
      intro clause member
      simpa using unassigned clause member
    rw [userTypes, unlisted, List.flatten_nil]
  · intro entry member
    rw [userTypes] at member
    obtain ⟨entries, inLists, inEntries⟩ := List.mem_flatten.mp member
    obtain ⟨clause, inClauses, listed⟩ := List.mem_filterMap.mp inLists
    exact (spellable clause inClauses).entries entries listed entry inEntries

/-- A definition that is read is canonical and spells out all that it holds. -/
theorem isSpellable_of_ofText {text : List Char} {body : Body}
    (read : Body.ofText text = .ok body) :
    body.rule.IsCanonical ∧ body.rule.IsSpellable body.userTypes := by
  obtain ⟨tokens, clauses, connectives, splits, joins, _, single, rfl⟩ :=
    exists_joins_of_ofText read
  have named : AreNamed tokens := fun name member => splits.isName member
  exact joins.isSpellable_ofClauses named single

end Rebac.Relation
