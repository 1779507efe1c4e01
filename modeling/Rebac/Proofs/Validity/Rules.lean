import Rebac.Proofs.Dsl.Draft
import Rebac.Validity

/-!
# The rules of validity

Each rule is stated on its own, as a condition under which a violation is due in
a model, in a rule or in a direct user type.  Nothing is said here about the
order in which violations are found, or about cycles.
-/

namespace Rebac

/-- The first element of a list with a name. -/
def FirstNamed {α : Type} (nameOf : α → String) (elements : List α) (name : String)
    (element : α) : Prop :=
  ∃ before after, elements = before ++ element :: after ∧ nameOf element = name ∧
    ∀ other ∈ before, nameOf other ≠ name

theorem find?_eq_some_iff_firstNamed {α : Type} {nameOf : α → String} {elements : List α}
    {name : String} {element : α} :
    elements.find? (fun other => decide (nameOf other = name)) = some element ↔
      FirstNamed nameOf elements name element := by
  rw [List.find?_eq_some_iff_append]
  constructor
  · rintro ⟨same, before, after, split, others⟩
    refine ⟨before, after, split, by simpa using same, ?_⟩
    intro other member
    simpa using others other member
  · rintro ⟨before, after, split, same, others⟩
    refine ⟨by simpa using same, before, after, split, ?_⟩
    intro other member
    simpa using others other member

namespace Rule

mutual

/-- A rule and all that it is made of, at any depth. -/
def nodes : Rule → List Rule
  | .union children => .union children :: nodesList children
  | rule => [rule]

/-- List counterpart of `Rule.nodes`. -/
def nodesList : List Rule → List Rule
  | [] => []
  | rule :: rules => rule.nodes ++ nodesList rules

end

theorem nodes_of_not_union {rule : Rule} (simple : rule.isUnion = false) :
    rule.nodes = [rule] := by
  cases rule with
  | union children => cases simple
  | _ => rfl

theorem nodesList_of_flat {rules : List Rule}
    (flat : ∀ rule ∈ rules, rule.isUnion = false) : nodesList rules = rules := by
  induction rules with
  | nil => rfl
  | cons rule rules induction =>
      have head := nodes_of_not_union (flat rule (by simp))
      have tail := induction fun other member => flat other (by simp [member])
      rw [nodesList, head, tail, List.singleton_append]

mutual

theorem directCount_eq_count (rule : Rule) :
    rule.directCount = rule.nodes.count .direct := by
  cases rule with
  | union children =>
      have different : Rule.union children ≠ .direct := by simp
      rw [directCount, nodes, List.count_cons_of_ne different,
        directCountList_eq_count children]
  | direct => rfl
  | computed relation => simp [directCount, nodes]
  | through tupleset relation => simp [directCount, nodes]

theorem directCountList_eq_count (rules : List Rule) :
    directCountList rules = (nodesList rules).count .direct := by
  cases rules with
  | nil => rfl
  | cons rule rules =>
      rw [directCountList, nodesList, List.count_append, directCount_eq_count rule,
        directCountList_eq_count rules]

end

private theorem mem_single_iff {rule leaf : Rule} (simple : rule.isUnion = false) :
    leaf ∈ [rule] ↔ leaf ∈ [rule] ∧ leaf.isUnion = false := by
  rw [List.mem_singleton]
  constructor
  · rintro rfl
    exact ⟨rfl, simple⟩
  · exact And.left

mutual

/-- The leaves are the nodes that are no unions. -/
theorem mem_leaves_iff (rule leaf : Rule) :
    leaf ∈ rule.leaves ↔ leaf ∈ rule.nodes ∧ leaf.isUnion = false := by
  cases rule with
  | union children =>
      rw [leaves, nodes, mem_leavesList_iff children leaf, List.mem_cons]
      constructor
      · rintro ⟨member, simple⟩
        exact ⟨Or.inr member, simple⟩
      · rintro ⟨rfl | member, simple⟩
        · cases simple
        · exact ⟨member, simple⟩
  | direct => exact mem_single_iff rfl
  | computed relation => exact mem_single_iff rfl
  | through tupleset relation => exact mem_single_iff rfl

theorem mem_leavesList_iff (rules : List Rule) (leaf : Rule) :
    leaf ∈ leavesList rules ↔ leaf ∈ nodesList rules ∧ leaf.isUnion = false := by
  cases rules with
  | nil => simp [leavesList, nodesList]
  | cons rule rules =>
      rw [leavesList, nodesList, List.mem_append, List.mem_append,
        mem_leaves_iff rule leaf, mem_leavesList_iff rules leaf, or_and_right]

end

end Rule

namespace Model

/-- Whether the first type of a name has a relation of a name. -/
def Defines (model : Model) (typeName relation : String) : Prop :=
  ∃ type, FirstNamed (·.name) model.types typeName type ∧
    relation ∈ type.relationNames

/-- Whether an entry points to something that the model defines. -/
def DefinesSubject (model : Model) (entry : UserType) : Prop :=
  match entry.relation with
  | some relation => model.Defines entry.typeName relation
  | none => entry.typeName ∈ model.types.map (·.name)

/-- The violations that are due in a direct user type. -/
inductive UserTypeBreaks (model : Model) (site : Site) (entry : UserType) :
    Violation → Prop where
  | typeName : isName entry.typeName = false →
      UserTypeBreaks model site entry (.invalidName .type entry.typeName)
  | relation {name : String} : entry.relation = some name → isName name = false →
      UserTypeBreaks model site entry (.invalidName .relation name)
  | condition {name : String} : entry.condition = some name → isName name = false →
      UserTypeBreaks model site entry (.invalidName .condition name)
  | subject : ¬ model.DefinesSubject entry →
      UserTypeBreaks model site entry (.invalidUserType site (toString entry))
  | undefinedCondition {name : String} : entry.condition = some name →
      name ∉ model.conditions.map (·.name) →
      UserTypeBreaks model site entry (.undefinedCondition site name)

/-- The violations that are due at a node of a rule. -/
inductive NodeBreaks (model : Model) (type : TypeDefinition) (site : Site) :
    Rule → Violation → Prop where
  | computed {name : String} : name ∉ type.relationNames →
      NodeBreaks model type site (.computed name) (.undefinedRelation site name)
  | tupleset {tupleset name : String} : tupleset ∉ type.relationNames →
      NodeBreaks model type site (.through tupleset name)
        (.undefinedRelation site tupleset)
  | target {tupleset name : String} {found : Relation} :
      FirstNamed (·.name) type.relations tupleset found →
      (∃ entry ∈ found.userTypes, entry.isPlain = true) →
      (∀ entry ∈ found.userTypes, entry.isPlain = true →
        ¬ model.Defines entry.typeName name) →
      NodeBreaks model type site (.through tupleset name)
        (.undefinedTarget site tupleset name)
  | fewChildren {children : List Rule} : children.length < 2 →
      NodeBreaks model type site (.union children) (.invalidUnion site children.length)
  | nestedUnion {children inner : List Rule} : .union inner ∈ children →
      NodeBreaks model type site (.union children) (.invalidUnion site children.length)
  | directNotFirst {children : List Rule} : .direct ∈ children.tail →
      NodeBreaks model type site (.union children) (.directNotFirst site)

/-- The violations other than cycles that are due in a model with types. -/
inductive Breaks (model : Model) : Violation → Prop where
  | schemaVersion : ¬ IsSchemaVersion model.schemaVersion →
      Breaks model (.invalidSchemaVersion model.schemaVersion)
  | typeName {type : TypeDefinition} : type ∈ model.types → isName type.name = false →
      Breaks model (.invalidName .type type.name)
  | duplicateType {name : String} : 2 ≤ (model.types.map (·.name)).count name →
      Breaks model (.duplicateType name)
  | duplicateCondition {name : String} :
      2 ≤ (model.conditions.map (·.name)).count name →
      Breaks model (.duplicateCondition name)
  | condition {condition : Condition} {cause : ConditionFault} :
      condition ∈ model.conditions → condition.check = .error cause →
      Breaks model (.invalidCondition condition.name cause)
  | relationName {type : TypeDefinition} {relation : Relation} :
      type ∈ model.types → relation ∈ type.relations → isName relation.name = false →
      Breaks model (.invalidName .relation relation.name)
  | duplicateRelation {type : TypeDefinition} {name : String} :
      type ∈ model.types → 2 ≤ type.relationNames.count name →
      Breaks model (.duplicateRelation { type := type.name, relation := name })
  | directMismatch {type : TypeDefinition} {relation : Relation} :
      type ∈ model.types → relation ∈ type.relations →
      1 < relation.rule.nodes.count .direct ∨
        (.direct ∉ relation.rule.nodes ∧ relation.userTypes ≠ []) →
      Breaks model (.directMismatch { type := type.name, relation := relation.name }
        (relation.rule.nodes.count .direct) relation.userTypes.length)
  | userType {type : TypeDefinition} {relation : Relation} {entry : UserType}
      {violation : Violation} :
      type ∈ model.types → relation ∈ type.relations → entry ∈ relation.userTypes →
      model.UserTypeBreaks { type := type.name, relation := relation.name } entry
        violation →
      Breaks model violation
  | node {type : TypeDefinition} {relation : Relation} {node : Rule}
      {violation : Violation} :
      type ∈ model.types → relation ∈ type.relations → node ∈ relation.rule.nodes →
      model.NodeBreaks type { type := type.name, relation := relation.name } node
        violation →
      Breaks model violation

end Model

end Rebac
