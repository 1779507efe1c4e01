import Rebac.Proofs.Condition.Read
import Rebac.Proofs.Dsl.Reading
import Rebac.Proofs.Relation.Read

/-!
# What statements do to drafts

There are five ways in which a statement changes a draft.  All of them keep the
model of the draft well formed, and the bookkeeping of the draft in step with
its model.
-/

namespace Rebac

/-- A relation that a `define` statement can spell. -/
structure Relation.IsWellFormed (relation : Relation) : Prop where
  name : isName relation.name = true
  canonical : relation.rule.IsCanonical
  spellable : relation.rule.IsSpellable relation.userTypes

structure TypeDefinition.IsWellFormed (type : TypeDefinition) : Prop where
  name : isName type.name = true
  relationNames : type.relationNames.Nodup
  relations : ∀ relation ∈ type.relations, relation.IsWellFormed

/-- What statements spell and can keep apart, the schema version aside. -/
structure Model.IsWellFormed (model : Model) : Prop where
  typeNames : (model.types.map (·.name)).Nodup
  types : ∀ type ∈ model.types, type.IsWellFormed
  conditionNames : (model.conditions.map (·.name)).Nodup
  conditions : ∀ condition ∈ model.conditions, condition.IsWellFormed

/-- A schema version that a `schema` statement can hold. -/
def IsSchemaVersion (version : String) : Prop :=
  version.toList ≠ [] ∧ ∀ character ∈ version.toList, Text.isBlank character = false

instance (version : String) : Decidable (IsSchemaVersion version) :=
  haveI := List.decidableBAll (fun character => Text.isBlank character = false)
    version.toList
  inferInstanceAs (Decidable (_ ∧ _))

theorem Model.hasType_eq_false_iff {model : Model} {name : String} :
    model.hasType name = false ↔ name ∉ model.types.map (·.name) := by
  simp [hasType, type?]

theorem TypeDefinition.relation?_eq_none_iff {type : TypeDefinition} {name : String} :
    type.relation? name = none ↔ name ∉ type.relationNames := by
  simp [relation?, relationNames]

/-- A type with one more relation. -/
def TypeDefinition.withRelation (type : TypeDefinition) (relation : Relation) :
    TypeDefinition :=
  { type with relations := type.relations ++ [relation] }

theorem nodup_map_concat {α : Type} {elements : List α} {element : α}
    {name : α → String} (distinct : (elements.map name).Nodup)
    (fresh : name element ∉ elements.map name) :
    ((elements ++ [element]).map name).Nodup := by
  rw [List.map_append, List.nodup_append]
  refine ⟨distinct, by simp, ?_⟩
  intro earlier member added last same
  obtain rfl : added = name element := by simpa using last
  exact fresh (same ▸ member)

namespace Dsl.Draft

/-- A draft with one more condition; no type is open any longer. -/
def withCondition (draft : Draft) (condition : Condition) : Draft :=
  { model := { draft.model with
      conditions := draft.model.conditions ++ [condition] }
    current := none
    conditionNames := condition.name :: draft.conditionNames }

/-- A draft with one more type, which is open for relations. -/
def withType (draft : Draft) (name : String) : Draft :=
  { draft with
    model := { draft.model with
      types := draft.model.types ++ [{ name, relations := [] }] }
    current := some draft.model.types.length }

def withSchema (draft : Draft) (version : String) : Draft :=
  { draft with model := { draft.model with schemaVersion := version } }

/-- The effects that a statement can have on a draft. -/
inductive Step (draft : Draft) : Draft → Prop where
  | stay : Step draft draft
  | schema {version : String} :
      IsSchemaVersion version → Step draft (draft.withSchema version)
  | openType {name : String} :
      isName name = true → name ∉ draft.model.types.map (·.name) →
      Step draft (draft.withType name)
  | define {position : Nat} {type : TypeDefinition} {relation : Relation} :
      draft.current = some position → draft.model.types[position]? = some type →
      relation.name ∉ type.relationNames → relation.IsWellFormed →
      Step draft (draft.addRelation position relation)
  | condition {condition : Condition} :
      condition.IsWellFormed → condition.name ∉ draft.conditionNames →
      Step draft (draft.withCondition condition)

variable {draft next : Draft}

theorem types_addRelation {front : List TypeDefinition} {type : TypeDefinition}
    (split : draft.model.types = front ++ [type]) (relation : Relation) :
    (draft.addRelation front.length relation).model.types =
      front ++ [type.withRelation relation] := by
  simp only [addRelation, split]
  rw [List.modify_eq_take_cons_drop (by simp)]
  simp [TypeDefinition.withRelation]

private theorem exists_front {types : List TypeDefinition} {type : TypeDefinition}
    {position : Nat} (last : position + 1 = types.length)
    (found : types[position]? = some type) :
    ∃ front, types = front ++ [type] ∧ position = front.length := by
  obtain ⟨front, final, rfl⟩ :=
    List.eq_nil_or_concat types |>.resolve_left (by rintro rfl; simp at last)
  obtain rfl : position = front.length := by simpa using last
  obtain rfl : final = type := by simpa using found
  exact ⟨front, List.concat_eq_append, rfl⟩

theorem step_of_define {definition : List Char}
    (defined : draft.define definition = .ok next) : Step draft next := by
  unfold define at defined
  split at defined
  · cases defined
  · rename_i position current
    split at defined
    · cases defined
    · rename_i type found
      split at defined
      · cases defined
      · rename_i before after cut
        simp only at defined
        split at defined
        · rename_i name
          split at defined
          · cases defined
          · rename_i fresh
            split at defined
            · cases defined
            · rename_i body read
              obtain rfl := Except.ok.inj defined
              obtain ⟨canonical, spellable⟩ := Relation.isSpellable_of_ofText read
              refine Step.define current found ?_ ⟨name, canonical, spellable⟩
              rw [← TypeDefinition.relation?_eq_none_iff]
              simpa using fresh
        · cases defined

theorem step_of_addCondition {text : List Char}
    (added : draft.addCondition text = .ok next) :
    ∃ condition, Condition.ofText text = .ok condition ∧
      condition.name ∉ draft.conditionNames ∧ next = draft.withCondition condition := by
  unfold addCondition at added
  split at added
  · cases added
  · rename_i condition read
    split at added
    · cases added
    · rename_i fresh
      exact ⟨condition, read, by simpa using fresh, (Except.ok.inj added).symm⟩

theorem argument?_filled {keyword text argument : List Char}
    (found : argument? keyword text = some argument) : argument ≠ [] := by
  unfold argument? at found
  split at found
  · cases found
  · simp only at found
    split at found
    · cases found
    · rename_i filled
      obtain rfl := Option.some.inj found
      simpa using filled

/-- A statement that is accepted has one of the effects. -/
theorem step_of_applyText {text : List Char} (applied : draft.applyText text = .ok next) :
    Step draft next := by
  unfold applyText at applied
  split at applied
  · obtain ⟨condition, read, fresh, rfl⟩ := step_of_addCondition applied
    exact Step.condition (Condition.isWellFormed_of_ofText read) fresh
  · split at applied
    · obtain rfl := Except.ok.inj applied
      exact Step.stay
    · split at applied
      · rename_i version found
        unfold setSchema at applied
        split at applied
        · cases applied
        · rename_i solid
          obtain rfl := Except.ok.inj applied
          refine Step.schema ⟨?_, ?_⟩
          · rw [String.toList_ofList]
            exact argument?_filled found
          · rw [String.toList_ofList]
            simpa using solid
      · split at applied
        · rename_i name _
          unfold openType at applied
          split at applied
          · rename_i valid
            split at applied
            · cases applied
            · rename_i fresh
              obtain rfl := Except.ok.inj applied
              refine Step.openType valid (Model.hasType_eq_false_iff.mp ?_)
              simpa using fresh
          · cases applied
        · split at applied
          · split at applied
            · obtain rfl := Except.ok.inj applied
              exact Step.stay
            · cases applied
          · split at applied
            · exact step_of_define applied
            · cases applied

/-- What every step keeps, accepted statements keep. -/
theorem applyAll_induction {motive : Draft → Prop}
    (step : ∀ {draft next : Draft}, motive draft → Step draft next → motive next)
    {statements : List Statement} {final : Draft} (start : motive draft)
    (applied : draft.applyAll statements = .ok final) : motive final := by
  induction statements generalizing draft with
  | nil =>
      obtain rfl := Except.ok.inj applied
      exact start
  | cons statement statements induction =>
      obtain ⟨next, first, later⟩ := applyAll_cons_eq_ok_iff.mp applied
      exact induction (step start (step_of_applyText first)) later

/-- Conditions are only ever added behind those of a draft. -/
theorem conditions_prefix_of_step (step : Step draft next) :
    draft.model.conditions <+: next.model.conditions := by
  cases step with
  | condition => exact List.prefix_append _ _
  | _ => exact List.prefix_refl _

/-- A draft whose model is well formed and whose bookkeeping agrees with it. -/
structure IsWellFormed (draft : Draft) : Prop where
  model : draft.model.IsWellFormed
  /-- The open type is the last one. -/
  current : ∀ position, draft.current = some position →
    position + 1 = draft.model.types.length
  conditionNames : ∀ name,
    name ∈ draft.conditionNames ↔ name ∈ draft.model.conditions.map (·.name)

theorem isWellFormed_start (schemaVersion : String) :
    (start schemaVersion).IsWellFormed := by
  refine ⟨⟨?_, ?_, ?_, ?_⟩, ?_, ?_⟩ <;> simp [start, Model.ofSchema]

theorem isWellFormed_of_step (wellFormed : draft.IsWellFormed)
    (step : Step draft next) : next.IsWellFormed := by
  obtain ⟨⟨typeNames, types, names, conditions⟩, current, conditionNames⟩ := wellFormed
  cases step with
  | stay => exact ⟨⟨typeNames, types, names, conditions⟩, current, conditionNames⟩
  | schema _ => exact ⟨⟨typeNames, types, names, conditions⟩, current, conditionNames⟩
  | openType valid fresh =>
      rename_i name
      refine ⟨⟨?_, ?_, names, conditions⟩, ?_, conditionNames⟩
      · exact nodup_map_concat typeNames fresh
      · intro type member
        rcases List.mem_append.mp member with earlier | added
        · exact types type earlier
        · obtain rfl := List.mem_singleton.mp added
          exact ⟨valid, List.nodup_nil, by simp⟩
      · intro position same
        obtain rfl := Option.some.inj same
        simp [withType]
  | define isOpen found fresh relation =>
      rename_i position type added
      obtain ⟨front, split, rfl⟩ := exists_front (current position isOpen) found
      have added' := types_addRelation split added
      have inTypes : type ∈ draft.model.types := by simp [split]
      have extended : (type.withRelation added).IsWellFormed := by
        refine ⟨(types type inTypes).name, nodup_map_concat (types type inTypes).relationNames
          fresh, ?_⟩
        intro other member
        rcases List.mem_append.mp member with earlier | last
        · exact (types type inTypes).relations other earlier
        · obtain rfl := List.mem_singleton.mp last
          exact relation
      refine ⟨⟨?_, ?_, names, conditions⟩, ?_, conditionNames⟩
      · rw [added']
        simpa [split, TypeDefinition.withRelation] using typeNames
      · rw [added']
        intro other member
        rcases List.mem_append.mp member with earlier | last
        · exact types other (by simp [split, earlier])
        · obtain rfl := List.mem_singleton.mp last
          exact extended
      · rw [added']
        simpa [split, addRelation] using current
  | condition written fresh =>
      rename_i condition
      refine ⟨⟨typeNames, types, ?_, ?_⟩, by simp [withCondition], ?_⟩
      · have absent : condition.name ∉ draft.model.conditions.map (·.name) :=
          fun member => fresh ((conditionNames condition.name).mpr member)
        exact nodup_map_concat names absent
      · intro other member
        rcases List.mem_append.mp member with earlier | added
        · exact conditions other earlier
        · obtain rfl := List.mem_singleton.mp added
          exact written
      · intro name
        simp [withCondition, conditionNames, or_comm, eq_comm]

theorem isSchemaVersion_of_step (version : IsSchemaVersion draft.model.schemaVersion)
    (step : Step draft next) : IsSchemaVersion next.model.schemaVersion := by
  cases step with
  | schema valid => exact valid
  | _ => exact version

end Dsl.Draft

namespace Dsl

theorem conditions_prefix_of_reads {number : Nat} {block : Option OpenBlock}
    {lines : List (List Char)} {draft final : Draft}
    (reads : Reads number block lines draft final) :
    draft.model.conditions <+: final.model.conditions := by
  obtain ⟨statements, _, applied⟩ := reads
  have extended : ∀ {middle next : Draft},
      draft.model.conditions <+: middle.model.conditions → Draft.Step middle next →
        draft.model.conditions <+: next.model.conditions :=
    fun earlier step => earlier.trans (Draft.conditions_prefix_of_step step)
  exact Draft.applyAll_induction
    (motive := fun draft' => draft.model.conditions <+: draft'.model.conditions)
    extended (List.prefix_refl _) applied

variable {schemaVersion : String} {text : List Char} {model : Model}

theorem isWellFormed_of_read (parsed : read schemaVersion text = .ok model) :
    model.IsWellFormed := by
  obtain ⟨final, ⟨statements, _, applied⟩, rfl⟩ := read_eq_ok_iff.mp parsed
  exact (Draft.applyAll_induction Draft.isWellFormed_of_step
    (Draft.isWellFormed_start schemaVersion) applied).model

theorem isSchemaVersion_of_read (initial : IsSchemaVersion schemaVersion)
    (parsed : read schemaVersion text = .ok model) :
    IsSchemaVersion model.schemaVersion := by
  obtain ⟨final, ⟨statements, _, applied⟩, rfl⟩ := read_eq_ok_iff.mp parsed
  exact Draft.applyAll_induction Draft.isSchemaVersion_of_step initial applied

end Dsl

end Rebac
