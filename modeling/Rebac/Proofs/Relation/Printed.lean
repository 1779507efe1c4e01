import Rebac.Dsl.Printer
import Rebac.Proofs.Relation.Grammar
import Rebac.Proofs.Relation.Spelling
import Rebac.Proofs.Rule.Canonical
import Rebac.Proofs.Text.Trim

/-!
# Reading printed definitions

The printed form of a rule joins its leaves with `or`, however its unions nest.
Reading it back therefore yields the canonical union of the leaves, together
with the direct user types that were printed.  The names must be names of the
relation language, and no entry may qualify its type twice.
-/

namespace Rebac

/-- An entry whose written form names everything that it holds. -/
structure UserType.IsSpellable (entry : UserType) : Prop where
  typeName : isName entry.typeName = true
  relation : ∀ relation, entry.relation = some relation → isName relation = true
  condition : ∀ condition, entry.condition = some condition → isName condition = true
  exclusive : entry.relation.isSome = true → entry.wildcard = false

/-- The objects of a type, or all of them at once. -/
theorem UserType.isSpellable_plain {typeName : String} (valid : isName typeName = true)
    (wildcard : Bool) : { UserType.plain typeName with wildcard }.IsSpellable := by
  refine ⟨valid, ?_, ?_, ?_⟩
  all_goals simp [UserType.plain]

/-- A leaf whose relations are spelled with names. -/
def Rule.IsNamed : Rule → Prop
  | .computed relation => isName relation = true
  | .through tupleset relation =>
      isName tupleset = true ∧ isName relation = true
  | _ => True

/-- What a relation must be for its definition to be read back. -/
structure Rule.IsSpellable (rule : Rule) (entries : List UserType) : Prop where
  named : ∀ leaf ∈ rule.leaves, leaf.IsNamed
  single : rule.directCount ≤ 1
  unassigned : rule.directCount = 0 → entries = []
  entries : ∀ entry ∈ entries, entry.IsSpellable

theorem Rule.IsSpellable.countP_leaves {rule : Rule} {entries : List UserType}
    (spellable : rule.IsSpellable entries) : rule.leaves.countP isDirect ≤ 1 := by
  rw [← directCount_eq_countP]
  exact spellable.single

namespace Relation

open Token

def subjectTokens (entry : UserType) : List Token :=
  match entry.relation with
  | some relation => [.hash, .name relation]
  | none => if entry.wildcard then [.colon, .star] else []

def conditionTokens : Option String → List Token
  | some condition => [.keyword .withWord, .name condition]
  | none => []

def entryTokens (entry : UserType) : List Token :=
  .name entry.typeName :: (subjectTokens entry ++ conditionTokens entry.condition)

/-- The tokens of a list behind its opening bracket. -/
def entriesTokens : List UserType → List Token
  | [] => [.closeList]
  | [entry] => entryTokens entry ++ [.closeList]
  | entry :: entries => entryTokens entry ++ .comma :: entriesTokens entries

/-- The tokens of a rule that is no union. -/
def leafTokens (entries : List UserType) : Rule → List Token
  | .direct => .openList :: entriesTokens entries
  | .computed relation => [.name relation]
  | .through tupleset relation =>
      [.name relation, .keyword .fromWord, .name tupleset]
  | .union _ => []

def leavesTokens (entries : List UserType) : List Rule → List Token
  | [] => []
  | [leaf] => leafTokens entries leaf
  | leaf :: leaves =>
      leafTokens entries leaf ++ .keyword .orWord :: leavesTokens entries leaves

def subjectText (entry : UserType) : List Char :=
  match entry.relation with
  | some relation => entry.typeName.toList ++ '#' :: relation.toList
  | none =>
      if entry.wildcard then entry.typeName.toList ++ [':', '*']
      else entry.typeName.toList

def conditionText : Option String → List Char
  | some condition => " with ".toList ++ condition.toList
  | none => []

theorem toText_eq_append (entry : UserType) :
    entry.toText = subjectText entry ++ conditionText entry.condition := by
  unfold UserType.toText subjectText conditionText
  cases entry.condition with
  | none => exact (List.append_nil _).symm
  | some condition => exact List.append_assoc _ _ _

theorem spelling_condition {condition : Option String} {text : List Char}
    {tokens : List Token}
    (valid : ∀ name, condition = some name → isName name = true)
    (ends : EndsWord text) (spelling : Spelling text tokens) :
    Spelling (conditionText condition ++ text) (conditionTokens condition ++ tokens) := by
  cases condition with
  | none => exact spelling
  | some name =>
      have named := Spelling.name (valid name rfl) ends spelling
      have behind := Spelling.keyword .withWord
        (endsWord_cons (by decide) (name.toList ++ text)) named.blank
      have shape : conditionText (some name) ++ text =
          ' ' :: ("with".toList ++ ' ' :: (name.toList ++ text)) := by
        change (" with ".toList ++ name.toList) ++ text = _
        rw [List.append_assoc]
        rfl
      rw [shape]
      exact behind.blank

theorem endsWord_condition {condition : Option String} {text : List Char}
    (ends : EndsWord text) : EndsWord (conditionText condition ++ text) := by
  cases condition with
  | none => exact ends
  | some name => exact endsWord_cons (by decide) _

theorem spelling_subject {entry : UserType} {text : List Char} {tokens : List Token}
    (spellable : entry.IsSpellable) (ends : EndsWord text)
    (spelling : Spelling text tokens) :
    Spelling (subjectText entry ++ text)
      (.name entry.typeName :: (subjectTokens entry ++ tokens)) := by
  unfold subjectText subjectTokens
  cases related : entry.relation with
  | some relation =>
      have behind := Spelling.name (spellable.relation relation related) ends spelling
      simpa using Spelling.qualifiedName spellable.typeName behind
  | none =>
      cases entry.wildcard with
      | true =>
          have starred := Spelling.mark (rfl : ofMark? '*' = some .star) (by decide)
            spelling
          have coloned := Spelling.mark (rfl : ofMark? ':' = some .colon) (by decide)
            starred
          simpa using
            Spelling.name spellable.typeName (endsWord_cons (by decide) _) coloned
      | false => exact Spelling.name spellable.typeName ends spelling

theorem spelling_entry {entry : UserType} {text : List Char} {tokens : List Token}
    (spellable : entry.IsSpellable) (ends : EndsWord text)
    (spelling : Spelling text tokens) :
    Spelling (entry.toText ++ text) (entryTokens entry ++ tokens) := by
  have conditioned := spelling_condition spellable.condition ends spelling
  have whole := spelling_subject spellable (endsWord_condition ends) conditioned
  rw [toText_eq_append]
  simpa [entryTokens] using whole

theorem spelling_entries {entries : List UserType} {text : List Char}
    {tokens : List Token} (spellable : ∀ entry ∈ entries, entry.IsSpellable)
    (spelling : Spelling text tokens) :
    Spelling
      (", ".toList.intercalate (entries.map UserType.toText) ++ ']' :: text)
      (entriesTokens entries ++ tokens) := by
  have closed := Spelling.mark (rfl : ofMark? ']' = some .closeList) (by decide)
    spelling
  induction entries with
  | nil => exact closed
  | cons entry entries induction =>
      have head := spellable entry (by simp)
      cases entries with
      | nil =>
          simpa [entriesTokens] using
            spelling_entry head (endsWord_cons (by decide) text) closed
      | cons second entries =>
          have tail := induction fun other member => spellable other (by simp [member])
          have behind := Spelling.mark (rfl : ofMark? ',' = some .comma) (by decide)
            tail.blank
          have whole := spelling_entry head (endsWord_cons (by decide) _) behind
          simpa [entriesTokens, List.intercalate_cons_cons] using whole

theorem spelling_leaf {entries : List UserType} {leaf : Rule} {text : List Char}
    {tokens : List Token} (simple : leaf.isUnion = false) (named : leaf.IsNamed)
    (spellable : ∀ entry ∈ entries, entry.IsSpellable) (ends : EndsWord text)
    (spelling : Spelling text tokens) :
    Spelling (leaf.toText entries ++ text) (leafTokens entries leaf ++ tokens) := by
  cases leaf with
  | direct =>
      have listed := spelling_entries spellable spelling
      have opened := Spelling.mark (rfl : ofMark? '[' = some .openList) (by decide)
        listed
      simpa [Rule.toText, UserType.listText, leafTokens] using opened
  | computed relation => exact Spelling.name named ends spelling
  | through tupleset relation =>
      have tuples := Spelling.name named.1 ends spelling
      have behind := Spelling.keyword .fromWord
        (endsWord_cons (by decide) (tupleset.toList ++ text)) tuples.blank
      have whole := Spelling.name named.2 (endsWord_cons (by decide) _) behind.blank
      simpa [Rule.toText, leafTokens, Keyword.spelling] using whole
  | union children => simp [Rule.isUnion] at simple

theorem spelling_leaves {entries : List UserType} {leaves : List Rule}
    (simple : ∀ leaf ∈ leaves, leaf.isUnion = false)
    (named : ∀ leaf ∈ leaves, leaf.IsNamed)
    (spellable : ∀ entry ∈ entries, entry.IsSpellable) :
    Spelling (" or ".toList.intercalate (leaves.map (Rule.toText entries)))
      (leavesTokens entries leaves) := by
  induction leaves with
  | nil => exact Spelling.nil
  | cons leaf leaves induction =>
      have headSimple := simple leaf (by simp)
      have headNamed := named leaf (by simp)
      cases leaves with
      | nil =>
          have whole := spelling_leaf headSimple headNamed spellable endsWord_nil
            Spelling.nil
          simpa [leavesTokens] using whole
      | cons second leaves =>
          have tail := induction
            (fun other member => simple other (by simp [member]))
            (fun other member => named other (by simp [member]))
          have behind := Spelling.keyword .orWord
            (endsWord_cons (by decide) _) tail.blank
          have whole := spelling_leaf headSimple headNamed spellable
            (endsWord_cons (by decide) _) behind.blank
          simpa [leavesTokens, List.intercalate_cons_cons, Keyword.spelling] using whole

theorem isEntry_entryTokens {entry : UserType} (spellable : entry.IsSpellable) :
    IsEntry (entryTokens entry) entry := by
  obtain ⟨typeName, relation, wildcard, condition⟩ := entry
  have subject : IsSubject typeName
      (subjectTokens { typeName, relation, wildcard, condition })
      { typeName, relation, wildcard, condition := none } := by
    cases relation with
    | some relation =>
        obtain rfl : wildcard = false := spellable.exclusive rfl
        exact .members relation
    | none =>
        cases wildcard with
        | true => exact .everyone
        | false => exact .objects
  cases condition with
  | none => exact .mk subject .always
  | some condition => exact .mk subject (.under condition)

theorem exists_entriesTokens {entries : List UserType} (filled : entries ≠ [])
    (spellable : ∀ entry ∈ entries, entry.IsSpellable) :
    ∃ tokens, entriesTokens entries = tokens ++ [.closeList] ∧
      AreEntries tokens entries := by
  induction entries with
  | nil => exact absurd rfl filled
  | cons entry entries induction =>
      have head := isEntry_entryTokens (spellable entry (by simp))
      cases entries with
      | nil => exact ⟨_, rfl, .last head⟩
      | cons second entries =>
          obtain ⟨later, shape, tail⟩ := induction (by simp) fun other member =>
            spellable other (by simp [member])
          refine ⟨_, ?_, .more head tail⟩
          rw [entriesTokens, shape, List.append_assoc, List.cons_append]
          simp

theorem isList_entriesTokens {entries : List UserType}
    (spellable : ∀ entry ∈ entries, entry.IsSpellable) :
    IsList (entriesTokens entries) entries := by
  by_cases filled : entries = []
  · subst filled
    exact .empty
  · obtain ⟨tokens, shape, areEntries⟩ := exists_entriesTokens filled spellable
    rw [shape]
    exact .filled areEntries

/-- The clause that a leaf is read as. -/
def Clause.ofLeaf (entries : List UserType) (leaf : Rule) : Clause :=
  { rule := leaf, entries := if leaf.isDirect then some entries else none }

theorem isClause_leafTokens {entries : List UserType} {leaf : Rule}
    (simple : leaf.isUnion = false)
    (spellable : ∀ entry ∈ entries, entry.IsSpellable) :
    IsClause (leafTokens entries leaf) (Clause.ofLeaf entries leaf) := by
  cases leaf with
  | direct => exact .list (isList_entriesTokens spellable)
  | computed relation => exact .computed relation
  | through tupleset relation => exact .through tupleset relation
  | union children => simp [Rule.isUnion] at simple

theorem joins_leavesTokens {entries : List UserType} {leaves : List Rule}
    (filled : leaves ≠ []) (simple : ∀ leaf ∈ leaves, leaf.isUnion = false)
    (spellable : ∀ entry ∈ entries, entry.IsSpellable) :
    ∃ connectives,
      Joins (leavesTokens entries leaves) (leaves.map (Clause.ofLeaf entries))
          connectives ∧
        ∀ connective ∈ connectives, connective = .or := by
  induction leaves with
  | nil => exact absurd rfl filled
  | cons leaf leaves induction =>
      have head := isClause_leafTokens (simple leaf (by simp)) spellable
      cases leaves with
      | nil => exact ⟨[], .last head, by simp⟩
      | cons second leaves =>
          obtain ⟨connectives, tail, supported⟩ := induction (by simp)
            fun other member => simple other (by simp [member])
          exact ⟨.or :: connectives, .more .or head tail, by simpa using supported⟩

theorem readClauses_leavesTokens {entries : List UserType} {leaves : List Rule}
    (filled : leaves ≠ []) (simple : ∀ leaf ∈ leaves, leaf.isUnion = false)
    (spellable : ∀ entry ∈ entries, entry.IsSpellable)
    (single : leaves.countP Rule.isDirect ≤ 1) :
    readClauses false (leavesTokens entries leaves) =
      .ok (leaves.map (Clause.ofLeaf entries)) := by
  have listed : (fun leaf => (Clause.ofLeaf entries leaf).entries.isSome) =
      Rule.isDirect := by
    funext leaf
    cases direct : leaf.isDirect <;> simp [Clause.ofLeaf, direct]
  refine readClauses_eq_ok_iff.mpr
    ⟨joins_leavesTokens filled simple spellable, ?_⟩
  rw [List.countP_map, Function.comp_def, listed, Bool.toNat_false, Nat.zero_add]
  exact single

theorem ofClauses_leaves (entries : List UserType) (leaves : List Rule) :
    Body.ofClauses (leaves.map (Clause.ofLeaf entries)) =
      { rule := Rule.unionOf leaves
        userTypes := if leaves.any Rule.isDirect then entries else [] } := by
  have rules : (leaves.map (Clause.ofLeaf entries)).map (·.rule) = leaves := by
    rw [List.map_map]
    exact List.map_id leaves
  have listed : ((leaves.map (Clause.ofLeaf entries)).findSome? (·.entries)).getD [] =
      if leaves.any Rule.isDirect then entries else [] := by
    clear rules
    induction leaves with
    | nil => rfl
    | cons leaf leaves induction =>
        rw [List.map_cons, List.findSome?_cons, List.any_cons]
        cases direct : leaf.isDirect with
        | true => simp [Clause.ofLeaf, direct]
        | false => simpa [Clause.ofLeaf, direct] using induction
  rw [Body.ofClauses, rules, listed]

end Relation

private theorem intercalate_append {separator : List Char} {left right : List (List Char)}
    (leftFilled : left ≠ []) (rightFilled : right ≠ []) :
    separator.intercalate (left ++ right) =
      separator.intercalate left ++ separator ++ separator.intercalate right := by
  induction left with
  | nil => exact absurd rfl leftFilled
  | cons part left induction =>
      cases left with
      | nil =>
          obtain ⟨first, right, rfl⟩ := List.exists_cons_of_ne_nil rightFilled
          simp [List.intercalate_cons_cons]
      | cons second left =>
          have tail := induction (by simp)
          simp only [List.cons_append] at tail ⊢
          rw [List.intercalate_cons_cons, tail, List.intercalate_cons_cons]
          simp only [List.append_assoc]

namespace Rule

theorem toTexts_eq_map (entries : List UserType) (rules : List Rule) :
    toTexts entries rules = rules.map (toText entries) := by
  induction rules with
  | nil => rfl
  | cons rule rules induction => rw [toTexts, induction, List.map_cons]

mutual

/-- Printing forgets how unions nest. -/
theorem toText_eq_leaves {rule : Rule} (filled : rule.IsFilled)
    (entries : List UserType) :
    rule.toText entries =
      " or ".toList.intercalate (rule.leaves.map (toText entries)) := by
  cases rule with
  | union children =>
      rw [toText, toTexts_eq_map, leaves]
      exact toText_eq_leavesList filled.1 filled.2 entries
  | _ => simp [leaves]

theorem toText_eq_leavesList {rules : List Rule} (nonempty : rules ≠ [])
    (filled : AllFilled rules) (entries : List UserType) :
    " or ".toList.intercalate (rules.map (toText entries)) =
      " or ".toList.intercalate ((leavesList rules).map (toText entries)) := by
  match rules, nonempty, filled with
  | [rule], _, filled =>
      rw [List.map_singleton, List.intercalate_singleton,
        toText_eq_leaves filled.1 entries]
      simp [leavesList]
  | rule :: second :: rules, _, filled =>
      have head := toText_eq_leaves filled.1 entries
      have tail := toText_eq_leavesList (List.cons_ne_nil second rules) filled.2 entries
      have headFilled := leaves_ne_nil_of_isFilled filled.1
      have tailFilled : leavesList (second :: rules) ≠ [] := by
        simp [leavesList, leaves_ne_nil_of_isFilled filled.2.1]
      have split : leavesList (rule :: second :: rules) =
          rule.leaves ++ leavesList (second :: rules) := rfl
      rw [split, List.map_append, intercalate_append (by simpa using headFilled)
        (by simpa using tailFilled), ← head, ← tail]
      exact List.intercalate_cons_cons

end

theorem isTight_name {name : String} (valid : isName name = true) :
    Text.IsTight name.toList ∧ name.toList ≠ [] := by
  obtain ⟨filled, characters, _⟩ := isName_iff.mp valid
  exact ⟨Text.isTight_of_forall fun character member =>
    not_isBlank_of_isNameCharacter (characters character member), filled⟩

theorem isTight_leaf {leaf : Rule} (simple : leaf.isUnion = false)
    (named : leaf.IsNamed) (entries : List UserType) :
    Text.IsTight (leaf.toText entries) ∧ leaf.toText entries ≠ [] := by
  cases leaf with
  | direct =>
      refine ⟨?_, by simp [toText, UserType.listText]⟩
      exact Text.isTight_enclosed _ (by decide) (by decide)
  | computed relation => exact isTight_name named
  | through tupleset relation =>
      obtain ⟨relationTight, relationFilled⟩ := isTight_name named.2
      obtain ⟨tuplesetTight, tuplesetFilled⟩ := isTight_name named.1
      refine ⟨?_, by simp [toText]⟩
      exact Text.isTight_append relationTight tuplesetTight relationFilled
        tuplesetFilled " from ".toList
  | union children => simp [isUnion] at simple

theorem isTight_toText {rule : Rule} (filled : rule.IsFilled)
    (named : ∀ leaf ∈ rule.leaves, leaf.IsNamed) (entries : List UserType) :
    Text.IsTight (rule.toText entries) ∧ rule.toText entries ≠ [] := by
  have nonempty : rule.leaves.map (toText entries) ≠ [] := by
    simpa using leaves_ne_nil_of_isFilled filled
  rw [toText_eq_leaves filled]
  apply Text.isTight_intercalate _ nonempty
  intro part member
  obtain ⟨leaf, inLeaves, rfl⟩ := List.mem_map.mp member
  exact isTight_leaf (not_union_of_mem_leaves inLeaves) (named leaf inLeaves) entries

theorem spelling_toText {rule : Rule} (filled : rule.IsFilled) {entries : List UserType}
    (spellable : rule.IsSpellable entries) :
    Relation.Spelling (rule.toText entries)
      (Relation.leavesTokens entries rule.leaves) := by
  rw [toText_eq_leaves filled]
  exact Relation.spelling_leaves (fun _ member => not_union_of_mem_leaves member)
    spellable.named spellable.entries

end Rule

/-- Reading a printed definition yields the canonical union of its leaves and
the entries of its list. -/
theorem Relation.Body.ofText_toText {rule : Rule} (filled : rule.IsFilled)
    {entries : List UserType} (spellable : rule.IsSpellable entries) {text : List Char}
    (printed : Text.trim text = rule.toText entries) :
    Body.ofText text = .ok { rule := Rule.unionOf rule.leaves, userTypes := entries } := by
  have nonempty := (Rule.isTight_toText filled spellable.named entries).2
  have tokens := (Rule.spelling_toText filled spellable).spells.tokenize
  have clauses := readClauses_leavesTokens (Rule.leaves_ne_nil_of_isFilled filled)
    (fun _ member => Rule.not_union_of_mem_leaves member) spellable.entries
    spellable.countP_leaves
  have listed : (if rule.leaves.any Rule.isDirect then entries else []) = entries := by
    cases direct : rule.leaves.any Rule.isDirect with
    | true => rfl
    | false =>
        have none : rule.directCount = 0 := by
          rw [Rule.directCount_eq_countP, List.countP_eq_zero]
          exact List.any_eq_false.mp direct
        rw [spellable.unassigned none]
        rfl
  simp only [Body.ofText, printed, tokens, clauses, ofClauses_leaves, listed]
  simp [nonempty]

/-- Reading a printed definition collects the leaves of the rule, however its unions
nest, and leaves a canonical rule as it is. -/
theorem Relation.Body.ofText_toText_leaves {rule : Rule} {entries : List UserType}
    (filled : rule.IsFilled) (spellable : rule.IsSpellable entries) :
    Body.ofText (rule.toText entries) =
        .ok { rule := Rule.ofLeaves rule.leaves, userTypes := entries } ∧
      (rule.IsCanonical →
        Body.ofText (rule.toText entries) = .ok { rule, userTypes := entries }) := by
  have tight := (Rule.isTight_toText filled spellable.named entries).1
  have read := ofText_toText filled spellable (Text.trim_of_isTight tight)
  constructor
  · rw [read, Rule.unionOf_eq_ofLeaves
      (fun _ member => Rule.not_union_of_mem_leaves member) spellable.countP_leaves]
  · intro canonical
    rw [read, Rule.unionOf_leaves (Rule.isJoined_of_isCanonical canonical)]

/-- Entries that between them are qualified in every way. -/
def UserType.guests : List UserType :=
  [{ UserType.plain "s" with wildcard := true },
    { UserType.plain "g" with relation := some "m", condition := some "c" }]

def Rule.viewers : Rule :=
  .union [.direct, .computed "a", .through "p" "v"]

/-- The same clauses in nested unions, with the direct assignment last. -/
def Rule.nestedViewers : Rule :=
  .union [.union [.computed "a"], .union [.through "p" "v", .direct]]

private theorem Rule.isSpellable_viewers :
    viewers.IsSpellable UserType.guests ∧ nestedViewers.IsSpellable UserType.guests := by
  have named : ∀ leaf : Rule,
      leaf = .direct ∨ leaf = .computed "a" ∨ leaf = .through "p" "v" → leaf.IsNamed := by
    rintro leaf (rfl | rfl | rfl)
    · trivial
    · exact (by decide +kernel : isName "a" = true)
    · exact ⟨by decide +kernel, by decide +kernel⟩
  have spellable : ∀ entry ∈ UserType.guests, entry.IsSpellable := by
    intro entry member
    simp only [UserType.guests, List.mem_cons, List.not_mem_nil, or_false] at member
    rcases member with rfl | rfl
    · exact UserType.isSpellable_plain (by decide +kernel) true
    · exact ⟨by decide +kernel, by simp; decide +kernel, by simp; decide +kernel,
        by simp [UserType.plain]⟩
  constructor
  · refine ⟨?_, by decide, by decide, spellable⟩
    intro leaf member
    apply named
    simpa [viewers, leaves, leavesList] using member
  · refine ⟨?_, by decide, by decide, spellable⟩
    intro leaf member
    apply named
    simp [nestedViewers, leaves, leavesList] at member
    rcases member with rfl | rfl | rfl <;> simp

theorem Relation.Body.ofText_toText_leaves_viewers :
    (Rule.nestedViewers.IsFilled ∧ Rule.nestedViewers.IsSpellable UserType.guests) ∧
      Body.ofText (Rule.nestedViewers.toText UserType.guests) =
        .ok { rule := Rule.viewers, userTypes := UserType.guests } ∧
      (Rule.viewers.IsFilled ∧ Rule.viewers.IsSpellable UserType.guests ∧
        Rule.viewers.IsCanonical) ∧
      Body.ofText (Rule.viewers.toText UserType.guests) =
        .ok { rule := Rule.viewers, userTypes := UserType.guests } := by
  have nestedFilled : Rule.nestedViewers.IsFilled := by
    simp [Rule.nestedViewers, Rule.IsFilled, Rule.AllFilled]
  have filled : Rule.viewers.IsFilled := by
    simp [Rule.viewers, Rule.IsFilled, Rule.AllFilled]
  have canonical : Rule.viewers.IsCanonical := by
    simp [Rule.viewers, Rule.IsCanonical, Rule.isUnion, Rule.isDirect]
  obtain ⟨spellable, nestedSpellable⟩ := Rule.isSpellable_viewers
  exact ⟨⟨nestedFilled, nestedSpellable⟩,
    (ofText_toText_leaves nestedFilled nestedSpellable).1,
    ⟨filled, spellable, canonical⟩,
    (ofText_toText_leaves filled spellable).2 canonical⟩

end Rebac
