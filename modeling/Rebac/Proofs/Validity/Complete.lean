import Rebac.Proofs.Validity.Cycle
import Rebac.Proofs.Validity.Listed

/-!
# Validity is exact

The violations of a model with types are those that the rules demand, neither
more nor fewer, whatever else is wrong with the model.  Cycles are reported once
for each type, at the first relation that reaches one.
-/

namespace Rebac.Model

variable {model : Model}

/-- Whether a type of a model reaches a cycle from a relation, and from none before
it. -/
def IsCyclicAt (model : Model) (site : Site) : Prop :=
  ∃ type ∈ model.types, type.name = site.type ∧ type.IsCycleRoot site.relation

theorem mem_cycleViolations_iff {type : TypeDefinition} {violation : Violation} :
    violation ∈ cycleViolations type ↔
      ∃ relation path, type.cycle? = some (relation, path) ∧
        violation = .cyclicRelation { type := type.name, relation } path := by
  unfold cycleViolations
  cases found : type.cycle? with
  | none => simp
  | some result =>
      obtain ⟨relation, path⟩ := result
      constructor
      · intro member
        exact ⟨relation, path, rfl, List.mem_singleton.mp member⟩
      · rintro ⟨relation', path', same, rfl⟩
        cases same
        exact List.mem_singleton_self _

theorem not_breaks_cyclicRelation (site : Site) (path : List String) :
    ¬ model.Breaks (.cyclicRelation site path) := by
  intro breaks
  cases breaks with
  | userType inTypes inType inEntries breaks => cases breaks
  | node inTypes inType inRule breaks => cases breaks

theorem mem_violations_cyclicRelation_iff (filled : model.types ≠ []) {site : Site}
    {path : List String} :
    .cyclicRelation site path ∈ model.violations ↔
      ∃ type ∈ model.types, type.name = site.type ∧
        type.cycle? = some (site.relation, path) := by
  rw [mem_violations_iff filled]
  constructor
  · rintro (breaks | ⟨type, inTypes, cycle⟩)
    · exact absurd breaks (not_breaks_cyclicRelation site path)
    · obtain ⟨relation, walk, found, same⟩ := mem_cycleViolations_iff.mp cycle
      cases same
      exact ⟨type, inTypes, rfl, found⟩
  · rintro ⟨type, inTypes, name, found⟩
    refine Or.inr ⟨type, inTypes, mem_cycleViolations_iff.mpr ⟨_, _, found, ?_⟩⟩
    rw [name]

theorem exists_cyclicRelation_iff (filled : model.types ≠ []) {site : Site} :
    (∃ path, .cyclicRelation site path ∈ model.violations) ↔ model.IsCyclicAt site := by
  constructor
  · rintro ⟨path, listed⟩
    obtain ⟨type, inTypes, name, found⟩ :=
      (mem_violations_cyclicRelation_iff filled).mp listed
    exact ⟨type, inTypes, name, TypeDefinition.exists_cycle?_iff.mp ⟨path, found⟩⟩
  · rintro ⟨type, inTypes, name, root⟩
    obtain ⟨path, found⟩ := TypeDefinition.exists_cycle?_iff.mpr root
    exact ⟨path, (mem_violations_cyclicRelation_iff filled).mpr
      ⟨type, inTypes, name, found⟩⟩

/-- The walk of a reported cycle starts at its site and ends with its first
repetition. -/
theorem isCycleWalk_of_cyclicRelation (filled : model.types ≠ []) {site : Site}
    {path : List String} (listed : .cyclicRelation site path ∈ model.violations) :
    path.head? = some site.relation ∧
      ∃ type ∈ model.types, type.name = site.type ∧ type.IsCycleWalk path.reverse := by
  obtain ⟨type, inTypes, name, found⟩ :=
    (mem_violations_cyclicRelation_iff filled).mp listed
  obtain ⟨walk, start, _⟩ := TypeDefinition.isCycleRoot_of_cycle? found
  exact ⟨start, type, inTypes, name, walk⟩

theorem mem_violations_iff_breaks (filled : model.types ≠ []) {violation : Violation}
    (acyclic : ∀ site path, violation ≠ .cyclicRelation site path) :
    violation ∈ model.violations ↔ model.Breaks violation := by
  rw [mem_violations_iff filled]
  constructor
  · rintro (breaks | ⟨type, _, cycle⟩)
    · exact breaks
    · obtain ⟨relation, walk, _, same⟩ := mem_cycleViolations_iff.mp cycle
      exact absurd same (acyclic _ _)
  · exact Or.inl

/-- A model with types has no violations exactly if it breaks no rule and no type of
it has a cycle.  Each violation is listed exactly if it is due, independently of
all others, and every cycle with a walk into it. -/
theorem violations_exact (filled : model.types ≠ []) :
    (model.violations = [] ↔
        (∀ violation, ¬ model.Breaks violation) ∧ ∀ site, ¬ model.IsCyclicAt site) ∧
      (∀ violation, (∀ site path, violation ≠ .cyclicRelation site path) →
        (violation ∈ model.violations ↔ model.Breaks violation)) ∧
        (∀ site, (∃ path, .cyclicRelation site path ∈ model.violations) ↔
          model.IsCyclicAt site) ∧
          ∀ site path, .cyclicRelation site path ∈ model.violations →
            path.head? = some site.relation ∧
              ∃ type ∈ model.types, type.name = site.type ∧
                type.IsCycleWalk path.reverse := by
  have cyclic (site : Site) :
      (∃ path, .cyclicRelation site path ∈ model.violations) ↔ model.IsCyclicAt site :=
    exists_cyclicRelation_iff filled
  refine ⟨?_, fun violation => mem_violations_iff_breaks filled, cyclic,
    fun site path => isCycleWalk_of_cyclicRelation filled⟩
  constructor
  · intro valid
    constructor
    · intro violation breaks
      have listed := (mem_violations_iff filled).mpr (Or.inl breaks)
      rw [valid] at listed
      cases listed
    · intro site cycle
      obtain ⟨path, listed⟩ := (cyclic site).mpr cycle
      rw [valid] at listed
      cases listed
  · rintro ⟨unbroken, acyclic⟩
    apply List.eq_nil_iff_forall_not_mem.mpr
    intro violation listed
    rcases (mem_violations_iff filled).mp listed with breaks | ⟨type, inTypes, cycle⟩
    · exact unbroken violation breaks
    · obtain ⟨relation, walk, _, rfl⟩ := mem_cycleViolations_iff.mp cycle
      exact acyclic _ ((cyclic _).mp ⟨walk, listed⟩)

/-- A model whose only type has a relation that computes from itself and one that
computes from a relation that is not defined. -/
def loops : Model :=
  { schemaVersion := "1.1"
    types := [
      { name := "doc"
        relations := [
          { name := "editor", rule := .computed "editor", userTypes := [] },
          { name := "viewer", rule := .computed "reader", userTypes := [] }] }]
    conditions := [] }

theorem violations_exact_loops :
    loops.types ≠ [] ∧
      loops.Breaks (.undefinedRelation { type := "doc", relation := "viewer" } "reader") ∧
        loops.IsCyclicAt { type := "doc", relation := "editor" } := by
  have filled : loops.types ≠ [] := by decide
  have relations : loops.types.flatMap
      (fun type => loops.relationViolations type [] type.relations) =
        [.undefinedRelation { type := "doc", relation := "viewer" } "reader"] := by
    decide +kernel
  have cycles : loops.types.flatMap cycleViolations =
      [.cyclicRelation { type := "doc", relation := "editor" } ["editor", "editor"]] := by
    simp [loops, cycleViolations, TypeDefinition.cycle?, TypeDefinition.searchFrom,
      TypeDefinition.visit, TypeDefinition.visitAll, TypeDefinition.successors,
      TypeDefinition.references, TypeDefinition.relationNames, Rule.references]
  have types : loops.types.flatMap loops.typeViolations =
      loops.types.flatMap (fun type => loops.relationViolations type [] type.relations) ++
        loops.types.flatMap cycleViolations := by
    simp [loops, typeViolations]
  have schema : loops.schemaViolations = [] := by decide +kernel
  have names : typeNameViolations [] loops.types = [] := by decide +kernel
  have conditions : conditionViolations [] loops.conditions = [] := rfl
  have listed : loops.violations = [
      .undefinedRelation { type := "doc", relation := "viewer" } "reader",
      .cyclicRelation { type := "doc", relation := "editor" } ["editor", "editor"]] := by
    rw [violations, if_neg (by decide), schema, names, conditions, types, relations, cycles]
    rfl
  obtain ⟨_, due, cyclic, _⟩ := violations_exact filled
  refine ⟨filled, ?_, ?_⟩
  · apply (due _ (by simp)).mp
    rw [listed]
    exact List.mem_cons_self
  · apply (cyclic _).mp
    rw [listed]
    exact ⟨_, List.mem_cons_of_mem _ List.mem_cons_self⟩

end Rebac.Model
