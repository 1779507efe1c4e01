import Rebac.Proofs.Validity.Listed

/-!
# What valid models can spell

A valid model is well formed but for two things that no rule mentions: the
relation that a rule takes from the objects of a tupleset need not be a name, and
a direct user type may ask for a relation and for every user at once.
-/

namespace Rebac

/-- The relation that a rule takes from the objects of a tupleset. -/
def Rule.target? : Rule → Option String
  | .through _ relation => some relation
  | _ => none

/-- Whether the relations that are reached through tuplesets have names. -/
def Relation.HasNamedTargets (relation : Relation) : Prop :=
  ∀ name ∈ relation.rule.leaves.filterMap Rule.target?, isName name = true

instance (relation : Relation) : Decidable relation.HasNamedTargets :=
  inferInstanceAs (Decidable (∀ name ∈ _, _))

/-- Whether no entry qualifies its type twice. -/
def Relation.HasExclusiveEntries (relation : Relation) : Prop :=
  ∀ entry ∈ relation.userTypes, entry.relation.isSome = true → entry.wildcard = false

instance (relation : Relation) : Decidable relation.HasExclusiveEntries :=
  inferInstanceAs (Decidable (∀ entry ∈ _, _))

theorem Relation.IsWellFormed.hasNamedTargets {relation : Relation}
    (wellFormed : relation.IsWellFormed) : relation.HasNamedTargets := by
  intro name member
  obtain ⟨leaf, inLeaves, target⟩ := List.mem_filterMap.mp member
  have named := wellFormed.spellable.named leaf inLeaves
  cases leaf with
  | through tupleset relation =>
      obtain rfl : relation = name := by simpa [Rule.target?] using target
      exact named.2
  | _ => cases target

theorem Relation.IsWellFormed.hasExclusiveEntries {relation : Relation}
    (wellFormed : relation.IsWellFormed) : relation.HasExclusiveEntries :=
  fun entry member => (wellFormed.spellable.entries entry member).exclusive

namespace Model

variable {model : Model}

theorem types_ne_nil_of_valid (valid : model.violations = []) : model.types ≠ [] := by
  intro empty
  simp [violations, empty] at valid

theorem not_breaks_of_valid (valid : model.violations = []) (violation : Violation) :
    ¬ model.Breaks violation := by
  intro due
  have listed : violation ∈ model.violations :=
    (mem_violations_iff (types_ne_nil_of_valid valid)).mpr (Or.inl due)
  rw [valid] at listed
  cases listed

theorem isSchemaVersion_of_valid (valid : model.violations = []) :
    IsSchemaVersion model.schemaVersion :=
  Classical.byContradiction fun invalid =>
    not_breaks_of_valid valid _ (.schemaVersion invalid)

theorem check_of_valid (valid : model.violations = []) {condition : Condition}
    (member : condition ∈ model.conditions) : condition.check = .ok () := by
  cases checked : condition.check with
  | ok accepted => rfl
  | error cause => exact absurd (.condition member checked) (not_breaks_of_valid valid _)

private theorem nodup_of_count {names : List String}
    (single : ∀ name, ¬ 2 ≤ names.count name) : names.Nodup := by
  rw [List.nodup_iff_count]
  intro name
  have bound := single name
  omega

private theorem isName_of_valid {name : String} (valid : ¬ isName name = false) :
    isName name = true := by
  simpa using valid

theorem typeNames_nodup_of_valid (valid : model.violations = []) :
    (model.types.map (·.name)).Nodup :=
  nodup_of_count fun _ twice => not_breaks_of_valid valid _ (.duplicateType twice)

theorem conditionNames_nodup_of_valid (valid : model.violations = []) :
    (model.conditions.map (·.name)).Nodup :=
  nodup_of_count fun _ twice => not_breaks_of_valid valid _ (.duplicateCondition twice)

section

variable {type : TypeDefinition} (valid : model.violations = [])
  (inTypes : type ∈ model.types)
include valid inTypes

theorem typeName_of_valid : isName type.name = true :=
  isName_of_valid fun invalid => not_breaks_of_valid valid _ (.typeName inTypes invalid)

theorem relationNames_nodup_of_valid : type.relationNames.Nodup :=
  nodup_of_count fun _ twice =>
    not_breaks_of_valid valid _ (.duplicateRelation inTypes twice)

theorem isName_of_mem_relationNames {name : String}
    (member : name ∈ type.relationNames) : isName name = true := by
  obtain ⟨relation, inType, rfl⟩ := List.mem_map.mp member
  exact isName_of_valid fun invalid =>
    not_breaks_of_valid valid _ (.relationName inTypes inType invalid)

variable {relation : Relation} (inType : relation ∈ type.relations)
include inType

theorem not_nodeBreaks_of_valid {node : Rule} (inRule : node ∈ relation.rule.nodes)
    (violation : Violation) :
    ¬ model.NodeBreaks type { type := type.name, relation := relation.name } node
      violation :=
  fun breaks => not_breaks_of_valid valid _ (.node inTypes inType inRule breaks)

theorem isCanonical_of_valid : relation.rule.IsCanonical := by
  have none := fun node (inRule : node ∈ relation.rule.nodes) violation =>
    not_nodeBreaks_of_valid valid inTypes inType inRule violation
  cases shape : relation.rule with
  | union children =>
      have inRule : Rule.union children ∈ relation.rule.nodes := by
        rw [shape]
        exact List.mem_cons_self
      refine ⟨?_, ?_, ?_⟩
      · exact Nat.not_lt.mp fun few => none _ inRule _ (.fewChildren few)
      · intro child member
        cases child with
        | union inner => exact absurd (.nestedUnion member) (none _ inRule _)
        | _ => rfl
      · intro child member
        cases direct : child.isDirect with
        | false => rfl
        | true =>
            rw [Rule.isDirect_eq_true_iff] at direct
            rw [direct] at member
            exact absurd (.directNotFirst member) (none _ inRule _)
  | _ => trivial

theorem leaf_isNamed_of_valid (targets : relation.HasNamedTargets) {leaf : Rule}
    (member : leaf ∈ relation.rule.leaves) : leaf.IsNamed := by
  have inRule : leaf ∈ relation.rule.nodes :=
    ((Rule.mem_leaves_iff relation.rule leaf).mp member).1
  have none := not_nodeBreaks_of_valid valid inTypes inType inRule
  cases leaf with
  | direct => trivial
  | union children => trivial
  | computed name =>
      exact isName_of_mem_relationNames valid inTypes
        (Classical.byContradiction fun undefined => none _ (.computed undefined))
  | through tupleset name =>
      have defined : tupleset ∈ type.relationNames :=
        Classical.byContradiction fun undefined => none _ (.tupleset undefined)
      exact ⟨isName_of_mem_relationNames valid inTypes defined,
        targets name (List.mem_filterMap.mpr ⟨_, member, rfl⟩)⟩

theorem entry_isSpellable_of_valid (exclusive : relation.HasExclusiveEntries)
    {entry : UserType} (member : entry ∈ relation.userTypes) : entry.IsSpellable := by
  have none := fun violation breaks =>
    not_breaks_of_valid valid violation (.userType inTypes inType member breaks)
  refine ⟨?_, ?_, ?_, exclusive entry member⟩
  · exact isName_of_valid fun invalid => none _ (.typeName invalid)
  · intro name found
    exact isName_of_valid fun invalid => none _ (.relation found invalid)
  · intro name found
    exact isName_of_valid fun invalid => none _ (.condition found invalid)

theorem isSpellable_of_valid (targets : relation.HasNamedTargets)
    (exclusive : relation.HasExclusiveEntries) :
    relation.rule.IsSpellable relation.userTypes := by
  have matched : ¬ (1 < relation.rule.nodes.count .direct ∨
      (.direct ∉ relation.rule.nodes ∧ relation.userTypes ≠ [])) := fun mismatch =>
    not_breaks_of_valid valid _ (.directMismatch inTypes inType mismatch)
  refine ⟨fun leaf member => leaf_isNamed_of_valid valid inTypes inType targets member,
    ?_, ?_, fun entry member =>
      entry_isSpellable_of_valid valid inTypes inType exclusive member⟩
  · rw [Rule.directCount_eq_count]
    exact Nat.not_lt.mp fun several => matched (Or.inl several)
  · intro unassigned
    rw [Rule.directCount_eq_count, List.count_eq_zero] at unassigned
    exact Classical.byContradiction fun filled => matched (Or.inr ⟨unassigned, filled⟩)

end

/-- A valid model is well formed apart from what no rule mentions. -/
theorem isWellFormed_of_valid (valid : model.violations = [])
    (targets : ∀ type ∈ model.types, ∀ relation ∈ type.relations,
      relation.HasNamedTargets)
    (exclusive : ∀ type ∈ model.types, ∀ relation ∈ type.relations,
      relation.HasExclusiveEntries) : model.IsWellFormed := by
  refine ⟨typeNames_nodup_of_valid valid, ?_, conditionNames_nodup_of_valid valid, ?_⟩
  · intro type inTypes
    refine ⟨typeName_of_valid valid inTypes, relationNames_nodup_of_valid valid inTypes, ?_⟩
    intro relation inType
    exact ⟨isName_of_mem_relationNames valid inTypes (List.mem_map_of_mem inType),
      isCanonical_of_valid valid inTypes inType,
      isSpellable_of_valid valid inTypes inType (targets type inTypes relation inType)
        (exclusive type inTypes relation inType)⟩
  · intro condition member
    exact (Condition.check_eq_ok_iff_isWellFormed.mp (check_of_valid valid member)).1

end Model

end Rebac
