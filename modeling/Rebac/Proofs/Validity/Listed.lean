import Rebac.Proofs.Validity.Rules

/-!
# What the validator lists

Cycles aside, the list of violations of a model with types holds exactly the
violations that are due, whichever others there are.  The names that were seen
before only decide which occurrence of a repeated name is reported.
-/

namespace Rebac

/-- Whether a name occurs among some names after it occurred before them or
among them. -/
def Recurs (earlier names : List String) (name : String) : Prop :=
  name ∈ names ∧ (name ∈ earlier ∨ 2 ≤ names.count name)

theorem recurs_cons {earlier names : List String} {first name : String} :
    Recurs earlier (first :: names) name ↔
      (name = first ∧ first ∈ earlier) ∨ Recurs (first :: earlier) names name := by
  unfold Recurs
  by_cases same : name = first
  · subst same
    have counted : (name :: names).count name = names.count name + 1 :=
      List.count_cons_self
    have positive : 2 ≤ names.count name + 1 ↔ name ∈ names := by
      rw [← List.one_le_count_iff]
      omega
    rw [counted, positive]
    by_cases member : name ∈ names <;> simp [member]
  · have counted : (first :: names).count name = names.count name :=
      List.count_cons_of_ne (Ne.symm same)
    rw [counted]
    simp [same]

theorem recurs_nil_iff {names : List String} {name : String} :
    Recurs [] names name ↔ 2 ≤ names.count name := by
  unfold Recurs
  constructor
  · rintro ⟨_, earlier | repeated⟩
    · cases earlier
    · exact repeated
  · intro repeated
    exact ⟨List.count_pos_iff.mp (by omega), Or.inr repeated⟩

/-- One step of collecting what is due for each element, and what is due for each
name that recurs. -/
theorem due_cons_iff {α : Type} (nameOf : α → String) (due : α → Prop)
    (repeated : String → Prop) (earlier : List String) (element : α)
    (elements : List α) :
    (due element ∨ (nameOf element ∈ earlier ∧ repeated (nameOf element)) ∨
      (∃ other ∈ elements, due other) ∨
        ∃ name, Recurs (nameOf element :: earlier) (elements.map nameOf) name ∧
          repeated name) ↔
      (∃ other ∈ element :: elements, due other) ∨
        ∃ name, Recurs earlier ((element :: elements).map nameOf) name ∧
          repeated name := by
  constructor
  · rintro (here | ⟨member, again⟩ | ⟨other, member, later⟩ | ⟨name, recurs, again⟩)
    · exact Or.inl ⟨element, List.mem_cons_self, here⟩
    · exact Or.inr ⟨_, recurs_cons.mpr (Or.inl ⟨rfl, member⟩), again⟩
    · exact Or.inl ⟨other, List.mem_cons_of_mem _ member, later⟩
    · exact Or.inr ⟨name, recurs_cons.mpr (Or.inr recurs), again⟩
  · rintro (⟨other, member, due⟩ | ⟨name, recurs, again⟩)
    · rcases List.mem_cons.mp member with rfl | inRest
      · exact Or.inl due
      · exact Or.inr (Or.inr (Or.inl ⟨other, inRest, due⟩))
    · rcases recurs_cons.mp recurs with ⟨rfl, member⟩ | later
      · exact Or.inr (Or.inl ⟨member, again⟩)
      · exact Or.inr (Or.inr (Or.inr ⟨name, later, again⟩))

namespace Model

variable {model : Model} {violation : Violation}

theorem mem_nameViolations_iff {role : NameRole} {name : String} :
    violation ∈ role.violations name ↔
      isName name = false ∧ violation = .invalidName role name := by
  unfold NameRole.violations
  cases isName name <;> simp

theorem hasType_iff {name : String} :
    model.hasType name = true ↔ name ∈ model.types.map (·.name) := by
  simp [hasType, type?]

theorem hasRelation_iff {typeName relation : String} :
    model.hasRelation typeName relation = true ↔ model.Defines typeName relation := by
  unfold hasRelation type? Defines
  cases found : model.types.find? (·.name = typeName) with
  | none =>
      simp only [Option.bind_none, Option.isSome_none, Bool.false_eq_true, false_iff]
      rintro ⟨type, first, _⟩
      rw [find?_eq_some_iff_firstNamed.mpr first] at found
      cases found
  | some type =>
      have first := find?_eq_some_iff_firstNamed.mp found
      have defined : (type.relation? relation).isSome = true ↔
          relation ∈ type.relationNames := by
        simp [TypeDefinition.relation?, TypeDefinition.relationNames]
      rw [Option.bind_some, defined]
      constructor
      · intro member
        exact ⟨type, first, member⟩
      · rintro ⟨other, otherFirst, member⟩
        have same := find?_eq_some_iff_firstNamed.mpr otherFirst
        rw [found] at same
        obtain rfl := Option.some.inj same
        exact member

theorem hasSubject_iff {entry : UserType} :
    model.hasSubject entry = true ↔ model.DefinesSubject entry := by
  unfold hasSubject DefinesSubject
  cases entry.relation with
  | none => exact hasType_iff
  | some relation => exact hasRelation_iff

theorem mem_schemaViolations_iff :
    violation ∈ model.schemaViolations ↔
      ¬ IsSchemaVersion model.schemaVersion ∧
        violation = .invalidSchemaVersion model.schemaVersion := by
  have invalid : (model.schemaVersion.toList.isEmpty ||
      model.schemaVersion.toList.any Text.isBlank) = true ↔
        ¬ IsSchemaVersion model.schemaVersion := by
    unfold IsSchemaVersion
    by_cases empty : model.schemaVersion.toList = [] <;> simp [empty]
  unfold schemaViolations
  by_cases valid : IsSchemaVersion model.schemaVersion
  · rw [if_neg (fun bad => invalid.mp bad valid)]
    simp [valid]
  · rw [if_pos (invalid.mpr valid)]
    simp [valid]

private theorem mem_repetition_iff {earlier : List String} {name : String}
    {repetition : Violation} :
    violation ∈ (if earlier.contains name then [repetition] else []) ↔
      name ∈ earlier ∧ violation = repetition := by
  by_cases member : name ∈ earlier <;> simp [member]

theorem mem_typeNameViolations_iff {earlier : List String} {types : List TypeDefinition} :
    violation ∈ typeNameViolations earlier types ↔
      (∃ type ∈ types, isName type.name = false ∧
        violation = .invalidName .type type.name) ∨
      ∃ name, Recurs earlier (types.map (·.name)) name ∧
        violation = .duplicateType name := by
  induction types generalizing earlier with
  | nil => simp [typeNameViolations, Recurs]
  | cons type types induction =>
      rw [typeNameViolations, List.mem_append, List.mem_append, mem_nameViolations_iff,
        mem_repetition_iff, induction, or_assoc]
      exact due_cons_iff TypeDefinition.name
        (fun type => isName type.name = false ∧
          violation = .invalidName .type type.name)
        (fun name => violation = .duplicateType name) earlier type types

/-- The violation in one condition, names aside. -/
def checkViolations (condition : Condition) : List Violation :=
  match condition.check with
  | .error cause => [.invalidCondition condition.name cause]
  | .ok () => []

theorem mem_checkViolations_iff {condition : Condition} :
    violation ∈ checkViolations condition ↔
      ∃ cause, condition.check = .error cause ∧
        violation = .invalidCondition condition.name cause := by
  unfold checkViolations
  cases condition.check <;> simp

theorem mem_conditionViolations_iff {earlier : List String}
    {conditions : List Condition} :
    violation ∈ conditionViolations earlier conditions ↔
      (∃ condition ∈ conditions, ∃ cause, condition.check = .error cause ∧
        violation = .invalidCondition condition.name cause) ∨
      ∃ name, Recurs earlier (conditions.map (·.name)) name ∧
        violation = .duplicateCondition name := by
  induction conditions generalizing earlier with
  | nil => simp [conditionViolations, Recurs]
  | cons condition conditions induction =>
      have step := due_cons_iff Condition.name
        (fun condition => ∃ cause, condition.check = .error cause ∧
          violation = .invalidCondition condition.name cause)
        (fun name => violation = .duplicateCondition name) earlier condition conditions
      have shape : conditionViolations earlier (condition :: conditions) =
          (if earlier.contains condition.name then
            [Violation.duplicateCondition condition.name] else []) ++
            checkViolations condition ++
              conditionViolations (condition.name :: earlier) conditions := rfl
      rw [shape, List.mem_append, List.mem_append, mem_repetition_iff,
        mem_checkViolations_iff, induction, ← step]
      constructor
      · rintro ((again | due) | later)
        · exact Or.inr (Or.inl again)
        · exact Or.inl due
        · exact Or.inr (Or.inr later)
      · rintro (due | again | later)
        · exact Or.inl (Or.inr due)
        · exact Or.inl (Or.inl again)
        · exact Or.inr later

private theorem mem_subjectViolations_iff {site : Site} {entry : UserType} :
    violation ∈ (if model.hasSubject entry then []
      else [Violation.invalidUserType site (toString entry)]) ↔
        ¬ model.DefinesSubject entry ∧
          violation = .invalidUserType site (toString entry) := by
  rw [← hasSubject_iff]
  cases model.hasSubject entry <;> simp

theorem condition?_isSome_iff {name : String} :
    (model.condition? name).isSome = true ↔ name ∈ model.conditions.map (·.name) := by
  simp [condition?]

theorem mem_userTypeViolations_iff {site : Site} {entry : UserType} :
    violation ∈ model.userTypeViolations site entry ↔
      model.UserTypeBreaks site entry violation := by
  unfold userTypeViolations
  simp only [List.mem_append, mem_nameViolations_iff, mem_subjectViolations_iff,
    List.mem_flatMap, Option.mem_toList, or_assoc]
  constructor
  · rintro (⟨invalid, rfl⟩ | ⟨name, found, invalid, rfl⟩ | ⟨name, found, invalid, rfl⟩ |
      ⟨missing, rfl⟩ | ⟨name, found, listed⟩)
    · exact .typeName invalid
    · exact .relation found invalid
    · exact .condition found invalid
    · exact .subject missing
    · split at listed
      · cases listed
      · rename_i undefined
        obtain rfl := List.mem_singleton.mp listed
        rw [condition?_isSome_iff] at undefined
        exact .undefinedCondition found undefined
  · intro breaks
    cases breaks with
    | typeName invalid => exact Or.inl ⟨invalid, rfl⟩
    | relation found invalid => exact Or.inr (Or.inl ⟨_, found, invalid, rfl⟩)
    | condition found invalid => exact Or.inr (Or.inr (Or.inl ⟨_, found, invalid, rfl⟩))
    | subject missing => exact Or.inr (Or.inr (Or.inr (Or.inl ⟨missing, rfl⟩)))
    | undefinedCondition found undefined =>
        refine Or.inr (Or.inr (Or.inr (Or.inr ⟨_, found, ?_⟩)))
        rw [← condition?_isSome_iff] at undefined
        rw [if_neg undefined]
        exact List.mem_singleton_self _

theorem mem_assignmentViolations_iff {site : Site} {relation : Relation} :
    violation ∈ model.assignmentViolations site relation ↔
      ((1 < relation.rule.nodes.count .direct ∨
          (.direct ∉ relation.rule.nodes ∧ relation.userTypes ≠ [])) ∧
        violation = .directMismatch site (relation.rule.nodes.count .direct)
          relation.userTypes.length) ∨
      ∃ entry ∈ relation.userTypes, model.UserTypeBreaks site entry violation := by
  have mismatch : (decide (1 < relation.rule.directCount) ||
      (decide (relation.rule.directCount = 0) && decide (0 < relation.userTypes.length))) =
        true ↔
      1 < relation.rule.nodes.count .direct ∨
        (.direct ∉ relation.rule.nodes ∧ relation.userTypes ≠ []) := by
    rw [Rule.directCount_eq_count, Bool.or_eq_true, Bool.and_eq_true, decide_eq_true_eq,
      decide_eq_true_eq, decide_eq_true_eq, List.count_eq_zero, List.length_pos_iff]
  unfold assignmentViolations
  simp only [List.mem_append, List.mem_flatMap, mem_userTypeViolations_iff]
  apply or_congr_left
  rw [Rule.directCount_eq_count] at mismatch ⊢
  by_cases due : 1 < relation.rule.nodes.count .direct ∨
      (.direct ∉ relation.rule.nodes ∧ relation.userTypes ≠ [])
  · rw [if_pos (mismatch.mpr due), List.mem_singleton]
    simp [due]
  · rw [if_neg (fun bad => due (mismatch.mp bad))]
    simp [due]

theorem relation?_isSome_iff {type : TypeDefinition} {name : String} :
    (type.relation? name).isSome = true ↔ name ∈ type.relationNames := by
  simp [TypeDefinition.relation?, TypeDefinition.relationNames]

theorem mem_tuplesetViolations_iff {type : TypeDefinition} {site : Site}
    {tupleset name : String} :
    violation ∈ model.tuplesetViolations type site tupleset name ↔
      model.NodeBreaks type site (.through tupleset name) violation := by
  unfold tuplesetViolations
  cases found : type.relation? tupleset with
  | none =>
      have undefined : tupleset ∉ type.relationNames :=
        TypeDefinition.relation?_eq_none_iff.mp found
      constructor
      · intro listed
        obtain rfl := List.mem_singleton.mp listed
        exact .tupleset undefined
      · intro breaks
        cases breaks with
        | tupleset _ => exact List.mem_singleton_self _
        | target first _ _ =>
            rw [TypeDefinition.relation?, find?_eq_some_iff_firstNamed.mpr first] at found
            cases found
  | some relation =>
      have first := find?_eq_some_iff_firstNamed.mp found
      have defined : tupleset ∈ type.relationNames := by
        rw [← relation?_isSome_iff, found]
        rfl
      have missed : ((relation.userTypes.filter UserType.isPlain).isEmpty ||
          (relation.userTypes.filter UserType.isPlain).any fun target =>
            model.hasRelation target.typeName name) = false ↔
          (∃ entry ∈ relation.userTypes, entry.isPlain = true) ∧
            ∀ entry ∈ relation.userTypes, entry.isPlain = true →
              ¬ model.Defines entry.typeName name := by
        simp [← hasRelation_iff]
      constructor
      · intro listed
        dsimp only at listed
        split at listed
        · cases listed
        · rename_i undefined
          obtain ⟨plain, none⟩ := missed.mp (by simpa using undefined)
          obtain rfl := List.mem_singleton.mp listed
          exact .target first plain none
      · intro breaks
        cases breaks with
        | tupleset undefined => exact absurd defined undefined
        | target otherFirst plain none =>
            have same := find?_eq_some_iff_firstNamed.mpr otherFirst
            rw [TypeDefinition.relation?, same] at found
            obtain rfl := Option.some.inj found
            simp only [missed.mpr ⟨plain, none⟩]
            exact List.mem_singleton_self _

private theorem mem_unionViolations_iff {type : TypeDefinition} {site : Site}
    {children : List Rule} :
    (violation ∈ (if children.length < 2 then
        [Violation.invalidUnion site children.length] else []) ∨
      violation ∈ (if children.tail.any Rule.isDirect then
        [Violation.directNotFirst site] else []) ∨
      (∃ inner, .union inner ∈ children) ∧
        violation = .invalidUnion site children.length) ↔
      model.NodeBreaks type site (.union children) violation := by
  have behind : children.tail.any Rule.isDirect = true ↔ .direct ∈ children.tail := by
    rw [List.any_eq_true]
    constructor
    · rintro ⟨child, member, direct⟩
      rwa [Rule.isDirect_eq_true_iff.mp direct] at member
    · intro member
      exact ⟨.direct, member, rfl⟩
  rw [List.mem_ite_nil_right, List.mem_ite_nil_right, behind, List.mem_singleton,
    List.mem_singleton]
  constructor
  · rintro (⟨few, rfl⟩ | ⟨member, rfl⟩ | ⟨⟨inner, member⟩, rfl⟩)
    · exact .fewChildren few
    · exact .directNotFirst member
    · exact .nestedUnion member
  · intro breaks
    cases breaks with
    | fewChildren few => exact Or.inl ⟨few, rfl⟩
    | directNotFirst member => exact Or.inr (Or.inl ⟨member, rfl⟩)
    | nestedUnion member => exact Or.inr (Or.inr ⟨⟨_, member⟩, rfl⟩)

mutual

/-- What is due in a rule is due at one of its nodes. -/
theorem mem_ruleViolations_iff (type : TypeDefinition) (site : Site) (rule : Rule) :
    violation ∈ model.ruleViolations type site rule ↔
      ∃ node ∈ rule.nodes, model.NodeBreaks type site node violation := by
  cases rule with
  | direct =>
      constructor
      · intro listed
        cases listed
      · rintro ⟨node, member, breaks⟩
        obtain rfl := List.mem_singleton.mp member
        cases breaks
  | computed name =>
      constructor
      · intro listed
        rw [ruleViolations] at listed
        split at listed
        · cases listed
        · rename_i undefined
          rw [relation?_isSome_iff] at undefined
          obtain rfl := List.mem_singleton.mp listed
          exact ⟨_, List.mem_singleton_self _, .computed undefined⟩
      · rintro ⟨node, member, breaks⟩
        obtain rfl := List.mem_singleton.mp member
        cases breaks with
        | computed undefined =>
            rw [← relation?_isSome_iff] at undefined
            rw [ruleViolations, if_neg undefined]
            exact List.mem_singleton_self _
  | through tupleset name =>
      rw [ruleViolations, mem_tuplesetViolations_iff]
      constructor
      · intro breaks
        exact ⟨_, List.mem_singleton_self _, breaks⟩
      · rintro ⟨node, member, breaks⟩
        obtain rfl := List.mem_singleton.mp member
        exact breaks
  | union children =>
      have nodes : (∃ node ∈ (Rule.union children).nodes,
          model.NodeBreaks type site node violation) ↔
          model.NodeBreaks type site (.union children) violation ∨
            ∃ node ∈ Rule.nodesList children,
              model.NodeBreaks type site node violation := by
        simp only [Rule.nodes, List.mem_cons, or_and_right, exists_or, exists_eq_left]
      rw [ruleViolations, List.mem_append, List.mem_append,
        mem_childViolations_iff type site children.length children, nodes,
        ← mem_unionViolations_iff, or_assoc, or_assoc, or_assoc]

theorem mem_childViolations_iff (type : TypeDefinition) (site : Site) (count : Nat)
    (children : List Rule) :
    violation ∈ model.childViolations type site count children ↔
      ((∃ inner, .union inner ∈ children) ∧ violation = .invalidUnion site count) ∨
        ∃ node ∈ Rule.nodesList children, model.NodeBreaks type site node violation := by
  cases children with
  | nil => simp [childViolations, Rule.nodesList]
  | cons child children =>
      have nested : child.isUnion = true ↔ ∃ inner, child = .union inner := by
        cases child <;> simp [Rule.isUnion]
      have either : (∃ inner, Rule.union inner ∈ child :: children) ↔
          child.isUnion = true ∨ ∃ inner, .union inner ∈ children := by
        simp only [List.mem_cons, exists_or, nested, eq_comm]
      have nodes : (∃ node ∈ Rule.nodesList (child :: children),
          model.NodeBreaks type site node violation) ↔
          (∃ node ∈ child.nodes, model.NodeBreaks type site node violation) ∨
            ∃ node ∈ Rule.nodesList children,
              model.NodeBreaks type site node violation := by
        simp only [Rule.nodesList, List.mem_append, or_and_right, exists_or]
      rw [childViolations, List.mem_append, List.mem_append, List.mem_ite_nil_right,
        List.mem_singleton, mem_ruleViolations_iff type site child,
        mem_childViolations_iff type site count children, either, nodes, or_and_right]
      constructor
      · rintro ((here | below) | later | laterBelow)
        · exact Or.inl (Or.inl here)
        · exact Or.inr (Or.inl below)
        · exact Or.inl (Or.inr later)
        · exact Or.inr (Or.inr laterBelow)
      · rintro ((here | later) | below | laterBelow)
        · exact Or.inl (Or.inl here)
        · exact Or.inr (Or.inl later)
        · exact Or.inl (Or.inr below)
        · exact Or.inr (Or.inr laterBelow)

end

/-- What is due in a relation, repeated names aside. -/
def RelationBreaks (model : Model) (type : TypeDefinition) (violation : Violation)
    (relation : Relation) : Prop :=
  let site : Site := { type := type.name, relation := relation.name }
  (isName relation.name = false ∧ violation = .invalidName .relation relation.name) ∨
    ((1 < relation.rule.nodes.count .direct ∨
        (.direct ∉ relation.rule.nodes ∧ relation.userTypes ≠ [])) ∧
      violation = .directMismatch site (relation.rule.nodes.count .direct)
        relation.userTypes.length) ∨
    (∃ entry ∈ relation.userTypes, model.UserTypeBreaks site entry violation) ∨
    ∃ node ∈ relation.rule.nodes, model.NodeBreaks type site node violation

theorem mem_relationViolations_iff {type : TypeDefinition} {earlier : List String}
    {relations : List Relation} :
    violation ∈ model.relationViolations type earlier relations ↔
      (∃ relation ∈ relations, model.RelationBreaks type violation relation) ∨
      ∃ name, Recurs earlier (relations.map (·.name)) name ∧
        violation = .duplicateRelation { type := type.name, relation := name } := by
  induction relations generalizing earlier with
  | nil => simp [relationViolations, Recurs]
  | cons relation relations induction =>
      have step := due_cons_iff Relation.name (model.RelationBreaks type violation)
        (fun name => violation =
          .duplicateRelation { type := type.name, relation := name })
        earlier relation relations
      rw [← step]
      simp only [relationViolations, List.mem_append, mem_nameViolations_iff,
        mem_repetition_iff, mem_assignmentViolations_iff, mem_ruleViolations_iff,
        induction]
      constructor
      · rintro ((((name | again) | mismatch | entry) | node) | later)
        · exact Or.inl (Or.inl name)
        · exact Or.inr (Or.inl again)
        · exact Or.inl (Or.inr (Or.inl mismatch))
        · exact Or.inl (Or.inr (Or.inr (Or.inl entry)))
        · exact Or.inl (Or.inr (Or.inr (Or.inr node)))
        · exact Or.inr (Or.inr later)
      · rintro ((name | mismatch | entry | node) | again | later)
        · exact Or.inl (Or.inl (Or.inl (Or.inl name)))
        · exact Or.inl (Or.inl (Or.inr (Or.inl mismatch)))
        · exact Or.inl (Or.inl (Or.inr (Or.inr entry)))
        · exact Or.inl (Or.inr node)
        · exact Or.inl (Or.inl (Or.inl (Or.inr again)))
        · exact Or.inr later

/-- A model with types is valid exactly if each part of it is. -/
theorem violations_eq_nil_iff (filled : model.types ≠ []) :
    model.violations = [] ↔
      model.schemaViolations = [] ∧ typeNameViolations [] model.types = [] ∧
        conditionViolations [] model.conditions = [] ∧
          ∀ type ∈ model.types,
            model.relationViolations type [] type.relations = [] ∧
              cycleViolations type = [] := by
  have nonempty : ¬ model.types.isEmpty = true := by simpa using filled
  rw [violations, if_neg nonempty]
  simp only [List.append_eq_nil_iff, List.flatMap_eq_nil_iff, typeViolations, and_assoc]

/-- The violations of a model with types are those that are due, and cycles. -/
theorem mem_violations_iff (filled : model.types ≠ []) :
    violation ∈ model.violations ↔
      model.Breaks violation ∨ ∃ type ∈ model.types, violation ∈ cycleViolations type := by
  have nonempty : ¬ model.types.isEmpty = true := by simpa using filled
  rw [violations, if_neg nonempty]
  simp only [List.mem_append, mem_schemaViolations_iff, mem_typeNameViolations_iff,
    mem_conditionViolations_iff, List.mem_flatMap, typeViolations,
    mem_relationViolations_iff, recurs_nil_iff]
  constructor
  · rintro (((⟨invalid, rfl⟩ | ⟨type, inTypes, invalid, rfl⟩ | ⟨name, twice, rfl⟩) |
      ⟨condition, inConditions, cause, failed, rfl⟩ | ⟨name, twice, rfl⟩) |
      ⟨type, inTypes, (⟨relation, inType, due⟩ | ⟨name, twice, rfl⟩) | cycle⟩)
    · exact Or.inl (.schemaVersion invalid)
    · exact Or.inl (.typeName inTypes invalid)
    · exact Or.inl (.duplicateType twice)
    · exact Or.inl (.condition inConditions failed)
    · exact Or.inl (.duplicateCondition twice)
    · rcases due with ⟨invalid, rfl⟩ | ⟨mismatch, rfl⟩ | ⟨entry, inEntries, breaks⟩ |
        ⟨node, inRule, breaks⟩
      · exact Or.inl (.relationName inTypes inType invalid)
      · exact Or.inl (.directMismatch inTypes inType mismatch)
      · exact Or.inl (.userType inTypes inType inEntries breaks)
      · exact Or.inl (.node inTypes inType inRule breaks)
    · exact Or.inl (.duplicateRelation inTypes twice)
    · exact Or.inr ⟨type, inTypes, cycle⟩
  · rintro (due | ⟨type, inTypes, cycle⟩)
    · cases due with
      | schemaVersion invalid => exact Or.inl (Or.inl (Or.inl ⟨invalid, rfl⟩))
      | typeName inTypes invalid =>
          exact Or.inl (Or.inl (Or.inr (Or.inl ⟨_, inTypes, invalid, rfl⟩)))
      | duplicateType twice => exact Or.inl (Or.inl (Or.inr (Or.inr ⟨_, twice, rfl⟩)))
      | duplicateCondition twice => exact Or.inl (Or.inr (Or.inr ⟨_, twice, rfl⟩))
      | condition inConditions failed =>
          exact Or.inl (Or.inr (Or.inl ⟨_, inConditions, _, failed, rfl⟩))
      | relationName inTypes inType invalid =>
          exact Or.inr ⟨_, inTypes, Or.inl (Or.inl ⟨_, inType, Or.inl ⟨invalid, rfl⟩⟩)⟩
      | duplicateRelation inTypes twice =>
          exact Or.inr ⟨_, inTypes, Or.inl (Or.inr ⟨_, twice, rfl⟩)⟩
      | directMismatch inTypes inType mismatch =>
          exact Or.inr ⟨_, inTypes, Or.inl (Or.inl ⟨_, inType,
            Or.inr (Or.inl ⟨mismatch, rfl⟩)⟩)⟩
      | userType inTypes inType inEntries breaks =>
          exact Or.inr ⟨_, inTypes, Or.inl (Or.inl ⟨_, inType,
            Or.inr (Or.inr (Or.inl ⟨_, inEntries, breaks⟩))⟩)⟩
      | node inTypes inType inRule breaks =>
          exact Or.inr ⟨_, inTypes, Or.inl (Or.inl ⟨_, inType,
            Or.inr (Or.inr (Or.inr ⟨_, inRule, breaks⟩))⟩)⟩
    · exact Or.inr ⟨type, inTypes, Or.inr cycle⟩

end Model

end Rebac
