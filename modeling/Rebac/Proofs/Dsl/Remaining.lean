import Rebac.Proofs.Dsl.RoundTrip
import Rebac.Proofs.Validity.Complete

/-!
# What reading leaves to judge

Reading DSL text keeps the bookkeeping of a draft in step with its model and keeps
the model well formed.  A well-formed model breaks few rules of validity: it may
have no types, refer to what is not defined, compute in a cycle, or hold a carriage
return within an expression.
-/

namespace Rebac

theorem Rule.IsCanonical.eq_of_mem_nodes {rule : Rule} {children : List Rule}
    (canonical : rule.IsCanonical) (member : .union children ∈ rule.nodes) :
    rule = .union children := by
  cases rule with
  | union others =>
      obtain ⟨_, flat, _⟩ := canonical
      rw [nodes, nodesList_of_flat flat] at member
      rcases List.mem_cons.mp member with same | inner
      · exact same.symm
      · cases flat _ inner
  | _ => simp [nodes] at member

namespace Model

/-- The violations that a well-formed model may have. -/
inductive MayRemain (model : Model) : Violation → Prop where
  | emptyModel : model.types = [] → MayRemain model .emptyModel
  | undefinedRelation (site : Site) (name : String) :
      MayRemain model (.undefinedRelation site name)
  | undefinedTarget (site : Site) (tupleset relation : String) :
      MayRemain model (.undefinedTarget site tupleset relation)
  | invalidUserType (site : Site) (entry : String) :
      MayRemain model (.invalidUserType site entry)
  | undefinedCondition (site : Site) (name : String) :
      MayRemain model (.undefinedCondition site name)
  | cyclicRelation (site : Site) (path : List String) :
      MayRemain model (.cyclicRelation site path)
  | carriageReturn {condition : Condition} : condition ∈ model.conditions →
      '\r' ∈ condition.expression.toList →
      MayRemain model (.invalidCondition condition.name
        (.expression condition.name (.malformed .padded)))

variable {model : Model} {violation : Violation} {site : Site}

theorem mayRemain_of_userTypeBreaks {entry : UserType} (spellable : entry.IsSpellable)
    (breaks : model.UserTypeBreaks site entry violation) : model.MayRemain violation := by
  cases breaks with
  | typeName invalid =>
      rw [spellable.typeName] at invalid
      cases invalid
  | relation found invalid =>
      rw [spellable.relation _ found] at invalid
      cases invalid
  | condition found invalid =>
      rw [spellable.condition _ found] at invalid
      cases invalid
  | subject _ => exact .invalidUserType _ _
  | undefinedCondition _ _ => exact .undefinedCondition _ _

theorem mayRemain_of_nodeBreaks {type : TypeDefinition} {rule node : Rule}
    (canonical : rule.IsCanonical) (inRule : node ∈ rule.nodes)
    (breaks : model.NodeBreaks type site node violation) : model.MayRemain violation := by
  cases breaks with
  | computed _ => exact .undefinedRelation _ _
  | tupleset _ => exact .undefinedRelation _ _
  | target _ _ _ => exact .undefinedTarget _ _ _
  | fewChildren few =>
      obtain rfl := canonical.eq_of_mem_nodes inRule
      exact absurd canonical.1 (Nat.not_le.mpr few)
  | nestedUnion nested =>
      obtain rfl := canonical.eq_of_mem_nodes inRule
      cases canonical.2.1 _ nested
  | directNotFirst behind =>
      obtain rfl := canonical.eq_of_mem_nodes inRule
      cases canonical.2.2 _ behind

private theorem not_twice {names : List String} {name : String} (distinct : names.Nodup) :
    ¬ 2 ≤ names.count name :=
  Nat.not_le.mpr (Nat.lt_succ_of_le (List.nodup_iff_count.mp distinct name))

theorem mayRemain_of_breaks (wellFormed : model.IsWellFormed)
    (version : IsSchemaVersion model.schemaVersion) (breaks : model.Breaks violation) :
    model.MayRemain violation := by
  cases breaks with
  | schemaVersion invalid => exact absurd version invalid
  | typeName inTypes invalid =>
      rw [(wellFormed.types _ inTypes).name] at invalid
      cases invalid
  | duplicateType twice => exact absurd twice (not_twice wellFormed.typeNames)
  | duplicateCondition twice => exact absurd twice (not_twice wellFormed.conditionNames)
  | condition member failed =>
      obtain ⟨returns, rfl⟩ := (wellFormed.conditions _ member).cause_of_check failed
      exact .carriageReturn member returns
  | relationName inTypes inType invalid =>
      rw [((wellFormed.types _ inTypes).relations _ inType).name] at invalid
      cases invalid
  | duplicateRelation inTypes twice =>
      exact absurd twice (not_twice (wellFormed.types _ inTypes).relationNames)
  | directMismatch inTypes inType mismatch =>
      have spellable := ((wellFormed.types _ inTypes).relations _ inType).spellable
      rw [← List.count_eq_zero, ← Rule.directCount_eq_count] at mismatch
      rcases mismatch with several | ⟨none, assigned⟩
      · exact absurd spellable.single (Nat.not_le.mpr several)
      · exact absurd (spellable.unassigned none) assigned
  | userType inTypes inType inEntries breaks =>
      have spellable := ((wellFormed.types _ inTypes).relations _ inType).spellable
      exact mayRemain_of_userTypeBreaks (spellable.entries _ inEntries) breaks
  | node inTypes inType inRule breaks =>
      have canonical := ((wellFormed.types _ inTypes).relations _ inType).canonical
      exact mayRemain_of_nodeBreaks canonical inRule breaks

/-- A well-formed model with a schema version has no violations but those that may
remain. -/
theorem mayRemain_of_mem_violations (wellFormed : model.IsWellFormed)
    (version : IsSchemaVersion model.schemaVersion) (listed : violation ∈ model.violations) :
    model.MayRemain violation := by
  by_cases empty : model.types = []
  · have single : model.violations = [.emptyModel] := by simp [violations, empty]
    rw [single] at listed
    obtain rfl := List.mem_singleton.mp listed
    exact .emptyModel empty
  · rcases (mem_violations_iff empty).mp listed with breaks | ⟨type, _, cycle⟩
    · exact mayRemain_of_breaks wellFormed version breaks
    · obtain ⟨_, _, _, rfl⟩ := mem_cycleViolations_iff.mp cycle
      exact .cyclicRelation _ _

end Model

namespace Dsl

/-- After any statements that are accepted, the open type is the last one and the
names of conditions are those of the model.  A model that is read has no violations
but those that may remain, and none of its direct user types asks for a relation and
for every user at once. -/
theorem read_keeps_invariants :
    (∀ (schemaVersion : String) (statements : List Statement) (final : Draft),
      (Draft.start schemaVersion).applyAll statements = .ok final →
        (∀ position, final.current = some position →
          position + 1 = final.model.types.length) ∧
        ∀ name, name ∈ final.conditionNames ↔
          name ∈ final.model.conditions.map (·.name)) ∧
    ∀ (text : List Char) (model : Model),
      read Model.defaultSchemaVersion text = .ok model →
        (∀ violation ∈ model.violations, model.MayRemain violation) ∧
        ∀ type ∈ model.types, ∀ relation ∈ type.relations,
          relation.HasExclusiveEntries := by
  constructor
  · intro schemaVersion statements final applied
    have wellFormed := Draft.applyAll_induction Draft.isWellFormed_of_step
      (Draft.isWellFormed_start schemaVersion) applied
    exact ⟨wellFormed.current, wellFormed.conditionNames⟩
  · intro text model parsed
    have wellFormed := isWellFormed_of_read parsed
    have version := isSchemaVersion_of_read
      (by decide +kernel : IsSchemaVersion Model.defaultSchemaVersion) parsed
    constructor
    · intro violation listed
      exact Model.mayRemain_of_mem_violations wellFormed version listed
    · intro type inTypes relation inType
      exact ((wellFormed.types type inTypes).relations relation inType).hasExclusiveEntries

end Dsl

/-- A model whose only relation computes from one that is not defined. -/
def Model.dangling : Model :=
  { schemaVersion := "1.1"
    types := [
      { name := "t", relations := [{ name := "a", rule := .computed "b", userTypes := [] }] }]
    conditions := [] }

private theorem Model.isWellFormed_dangling : dangling.IsWellFormed := by
  refine ⟨by decide, ?_, by decide, by simp [dangling]⟩
  intro type member
  obtain rfl := List.mem_singleton.mp member
  refine ⟨by decide +kernel, by decide, ?_⟩
  intro relation member
  obtain rfl := List.mem_singleton.mp member
  refine ⟨by decide +kernel, trivial, ?_, by decide, fun _ => rfl, by simp⟩
  intro leaf member
  obtain rfl := List.mem_singleton.mp member
  exact (by decide +kernel : isName "b" = true)

theorem Dsl.read_keeps_invariants_dangling :
    ((Draft.start "1.1").applyAll [⟨1, "type t".toList⟩] =
        .ok ((Draft.start "1.1").withType "t") ∧
      ((Draft.start "1.1").withType "t").current = some 0 ∧
      0 + 1 = ((Draft.start "1.1").withType "t").model.types.length) ∧
    read Model.defaultSchemaVersion Model.dangling.toDsl = .ok Model.dangling ∧
      .undefinedRelation { type := "t", relation := "a" } "b" ∈
        Model.dangling.violations ∧
      Model.dangling.MayRemain
        (.undefinedRelation { type := "t", relation := "a" } "b") := by
  have applied : (Draft.start "1.1").applyAll [⟨1, "type t".toList⟩] =
      .ok ((Draft.start "1.1").withType "t") := rfl
  have parsed : read Model.defaultSchemaVersion Model.dangling.toDsl = .ok Model.dangling :=
    read_toDsl Model.isWellFormed_dangling (by decide +kernel) (by decide +kernel)
      (by simp [Model.dangling]) (by simp [Model.dangling]) _
  have listed : .undefinedRelation { type := "t", relation := "a" } "b" ∈
      Model.dangling.violations := by
    apply (Model.mem_violations_iff (by decide)).mpr
    refine Or.inl (.node List.mem_cons_self List.mem_cons_self List.mem_cons_self ?_)
    exact .computed (by decide)
  exact ⟨⟨applied, rfl, (read_keeps_invariants.1 _ _ _ applied).1 0 rfl⟩, parsed, listed,
    (read_keeps_invariants.2 _ _ parsed).1 _ listed⟩

end Rebac
