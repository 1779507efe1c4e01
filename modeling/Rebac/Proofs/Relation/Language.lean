import Rebac.Proofs.Relation.Grammar
import Rebac.Proofs.Relation.Splitting
import Rebac.Proofs.Rule.Canonical

/-!
# The language of relation definitions

The texts that define a relation are those that split into a row of clauses joined with
`or`, at most one of which is a list.  What such a text defines is the clause itself or
the union of the clauses, together with the entries of the list.  A row with another
connective is refused for the first one, however it continues.
-/

namespace Rebac.Relation

variable {tokens : List Token} {clause : Clause} {clauses : List Clause}
  {connectives : List Connective}

theorem IsClause.simple (isClause : IsClause tokens clause) :
    clause.rule.isUnion = false := by
  cases isClause <;> rfl

theorem IsClause.listed (isClause : IsClause tokens clause) :
    clause.entries.isSome = clause.rule.isDirect := by
  cases isClause <;> rfl

theorem Joins.exists_isClause (joins : Joins tokens clauses connectives)
    (member : clause ∈ clauses) : ∃ part, IsClause part clause := by
  induction joins with
  | last isClause =>
      obtain rfl := List.mem_singleton.mp member
      exact ⟨_, isClause⟩
  | more _ isClause _ induction =>
      rcases List.mem_cons.mp member with rfl | later
      · exact ⟨_, isClause⟩
      · exact induction later

theorem Joins.simple (joins : Joins tokens clauses connectives) :
    ∀ rule ∈ clauses.map (·.rule), rule.isUnion = false := by
  intro rule member
  obtain ⟨clause, inClauses, rfl⟩ := List.mem_map.mp member
  obtain ⟨_, isClause⟩ := joins.exists_isClause inClauses
  exact isClause.simple

theorem Joins.countP_isDirect (joins : Joins tokens clauses connectives) :
    (clauses.map (·.rule)).countP Rule.isDirect =
      clauses.countP (·.entries.isSome) := by
  rw [List.countP_map]
  apply List.countP_congr
  intro clause member
  obtain ⟨_, isClause⟩ := joins.exists_isClause member
  rw [isClause.listed]
  rfl

theorem findSome?_entries (single : clauses.countP (·.entries.isSome) ≤ 1) :
    (clauses.findSome? (·.entries)).getD [] =
      (clauses.filterMap (·.entries)).flatten := by
  induction clauses with
  | nil => rfl
  | cons clause clauses induction =>
      rw [List.findSome?_cons, List.filterMap_cons]
      cases listed : clause.entries with
      | none =>
          apply induction
          rwa [List.countP_cons_of_neg (by simp [listed])] at single
      | some entries =>
          rw [List.countP_cons_of_pos (by simp [listed])] at single
          have unlisted : clauses.countP (·.entries.isSome) = 0 := by omega
          have nothing : clauses.filterMap (·.entries) = [] := by
            rw [List.filterMap_eq_nil_iff]
            intro other member
            simpa using List.countP_eq_zero.mp unlisted other member
          simp [nothing]

theorem Joins.ofClauses (joins : Joins tokens clauses connectives)
    (single : clauses.countP (·.entries.isSome) ≤ 1) :
    Body.ofClauses clauses =
      { rule := Rule.ofLeaves (clauses.map (·.rule))
        userTypes := (clauses.filterMap (·.entries)).flatten } := by
  have count : (clauses.map (·.rule)).countP Rule.isDirect ≤ 1 := by
    rwa [joins.countP_isDirect]
  rw [Body.ofClauses, Rule.unionOf_eq_ofLeaves joins.simple count,
    findSome?_entries single]

theorem Splits.ne_nil {text : List Char} (splits : Splits text tokens)
    (filled : tokens ≠ []) : text ≠ [] := by
  rintro rfl
  have cut := tokenize_eq_ok_iff.mpr splits
  rw [tokenize, tokenizeFrom] at cut
  exact filled (Except.ok.inj cut).symm

theorem ofText_congr {text other : List Char} (same : Text.trim text = Text.trim other) :
    Body.ofText text = Body.ofText other := by
  unfold Body.ofText
  rw [same]

/-- The outcome for a text that splits into a row of clauses. -/
theorem ofText_of_joins {text : List Char} (splits : Splits (Text.trim text) tokens)
    (joins : Joins tokens clauses connectives)
    (single : clauses.countP (·.entries.isSome) ≤ 1) :
    Body.ofText text =
      match connectives.findSome? Connective.operator? with
      | none =>
          .ok { rule := Rule.ofLeaves (clauses.map (·.rule))
                userTypes := (clauses.filterMap (·.entries)).flatten }
      | some operator =>
          .error { source := String.ofList (Text.trim text)
                   fault := .unsupportedOperator operator } := by
  have filled : (Text.trim text).isEmpty = false := by
    simpa using splits.ne_nil joins.ne_nil
  have cut := tokenize_eq_ok_iff.mpr splits
  have room : false.toNat + clauses.countP (·.entries.isSome) ≤ 1 := by
    simpa using single
  have read := readClauses_of_joins joins room
  unfold Body.ofText
  simp only [filled, cut, read, Bool.false_eq_true, if_false]
  cases connectives.findSome? Connective.operator? with
  | none => simp only [joins.ofClauses single]
  | some operator => rfl

theorem exists_joins_of_ofText {text : List Char} {body : Body}
    (read : Body.ofText text = .ok body) :
    ∃ tokens clauses connectives,
      Splits (Text.trim text) tokens ∧ Joins tokens clauses connectives ∧
        (∀ connective ∈ connectives, connective = .or) ∧
          clauses.countP (·.entries.isSome) ≤ 1 ∧ Body.ofClauses clauses = body := by
  unfold Body.ofText at read
  simp only at read
  split at read
  · cases read
  · split at read
    · cases read
    · rename_i tokens cut
      split at read
      · cases read
      · rename_i clauses readAll
        obtain ⟨⟨connectives, joins, supported⟩, single⟩ :=
          readClauses_eq_ok_iff.mp readAll
        exact ⟨tokens, clauses, connectives, tokenize_eq_ok_iff.mp cut, joins, supported,
          by simpa using single, Except.ok.inj read⟩

/-- A definition is read exactly if its text splits into clauses joined with `or`, at
most one of them a list, and it is read as what these clauses say.  Clauses that are
joined otherwise are refused for the first other connective. -/
theorem ofText_follows_grammar (text : List Char) :
    (∀ body, Body.ofText text = .ok body ↔
      ∃ tokens clauses connectives,
        Splits (Text.trim text) tokens ∧ Joins tokens clauses connectives ∧
          (∀ connective ∈ connectives, connective = .or) ∧
            clauses.countP (·.entries.isSome) ≤ 1 ∧
              body = { rule := Rule.ofLeaves (clauses.map (·.rule))
                       userTypes := (clauses.filterMap (·.entries)).flatten }) ∧
      ∀ tokens clauses connectives,
        Splits (Text.trim text) tokens → Joins tokens clauses connectives →
          clauses.countP (·.entries.isSome) ≤ 1 →
            (∃ connective ∈ connectives, connective ≠ .or) →
              ∃ operator,
                connectives.findSome? Connective.operator? = some operator ∧
                  Body.ofText text =
                    .error { source := String.ofList (Text.trim text)
                             fault := .unsupportedOperator operator } := by
  constructor
  · intro body
    constructor
    · intro read
      obtain ⟨tokens, clauses, connectives, splits, joins, supported, single, rfl⟩ :=
        exists_joins_of_ofText read
      exact ⟨tokens, clauses, connectives, splits, joins, supported, single,
        joins.ofClauses single⟩
    · rintro ⟨tokens, clauses, connectives, splits, joins, supported, single, rfl⟩
      rw [ofText_of_joins splits joins single,
        findSome?_operator?_eq_none_iff.mpr supported]
  · intro tokens clauses connectives splits joins single refused
    obtain ⟨connective, member, other⟩ := refused
    cases found : connectives.findSome? Connective.operator? with
    | none =>
        exact absurd (findSome?_operator?_eq_none_iff.mp found connective member) other
    | some operator =>
        refine ⟨operator, rfl, ?_⟩
        rw [ofText_of_joins splits joins single, found]

theorem ofText_follows_grammar_spaced :
    Body.ofText " a or[s:*, g#m with c]or  v from p".toList =
        .ok { rule := .union [.direct, .computed "a", .through "p" "v"]
              userTypes := [{ UserType.plain "s" with wildcard := true },
                { UserType.plain "g" with relation := some "m", condition := some "c" }] } ∧
      (Splits (Text.trim "[s]or a but  not v from p".toList)
          [.openList, .name "s", .closeList, .keyword .orWord, .name "a",
            .keyword .butWord, .keyword .notWord, .name "v", .keyword .fromWord,
            .name "p"] ∧
        Joins
          [.openList, .name "s", .closeList, .keyword .orWord, .name "a",
            .keyword .butWord, .keyword .notWord, .name "v", .keyword .fromWord,
            .name "p"]
          [⟨.direct, some [UserType.plain "s"]⟩, ⟨.computed "a", none⟩,
            ⟨.through "p" "v", none⟩]
          [.or, .butNot]) ∧
        Body.ofText "[s]or a but  not v from p".toList =
          .error { source := "[s]or a but  not v from p"
                   fault := .unsupportedOperator .difference } := by
  have splits := tokenize_eq_ok_iff.mp (by decide +kernel :
    tokenize (Text.trim " a or[s:*, g#m with c]or  v from p".toList) =
      .ok [.name "a", .keyword .orWord, .openList, .name "s", .colon, .star, .comma,
        .name "g", .hash, .name "m", .keyword .withWord, .name "c", .closeList,
        .keyword .orWord, .name "v", .keyword .fromWord, .name "p"])
  have entries : AreEntries
      ([.name "s", .colon, .star] ++ .comma ::
        [.name "g", .hash, .name "m", .keyword .withWord, .name "c"])
      [{ UserType.plain "s" with wildcard := true },
        { UserType.plain "g" with relation := some "m", condition := some "c" }] :=
    .more (.mk .everyone .always) (.last (.mk (.members "m") (.under "c")))
  have joins := Joins.more .or (.computed "a")
    (.more .or (.list (.filled entries)) (.last (.through "p" "v")))
  have read := ((ofText_follows_grammar _).1 _).mpr
    ⟨_, _, _, splits, joins, by simp, by decide, rfl⟩
  have refusedSplits := tokenize_eq_ok_iff.mp (by decide +kernel :
    tokenize (Text.trim "[s]or a but  not v from p".toList) =
      .ok [.openList, .name "s", .closeList, .keyword .orWord, .name "a",
        .keyword .butWord, .keyword .notWord, .name "v", .keyword .fromWord, .name "p"])
  have list : IsClause [.openList, .name "s", .closeList]
      ⟨.direct, some [UserType.plain "s"]⟩ :=
    .list (.filled (.last (.mk .objects .always)))
  have refusedJoins :=
    Joins.more .or list (.more .butNot (.computed "a") (.last (.through "p" "v")))
  obtain ⟨operator, first, refused⟩ := (ofText_follows_grammar _).2 _ _ _ refusedSplits
    refusedJoins (by decide) ⟨.butNot, by decide, by decide⟩
  obtain rfl : UnsupportedOperator.difference = operator := Option.some.inj first
  exact ⟨read, ⟨refusedSplits, refusedJoins⟩, refused⟩

end Rebac.Relation
