import Mathlib.Data.List.Nodup
import Rebac.Metadata
import Rebac.Proofs.Condition.Cutting

/-!
# Metadata and models

Metadata holds the user types of a model as texts, without repetitions, in maps from names.
The text of a user type starts with the name of its type, and different user types have
different texts.  So what metadata answers is what the model says, in the order in which it
says it.
-/

namespace Rebac

namespace NameMap

variable {α : Type} {name : String} {value : α} {entries : List (String × α)}

private theorem find?_foldl_of_not_mem (unlisted : name ∉ entries.map Prod.fst)
    (map : NameMap α) :
    find? name (entries.foldl (fun map entry => insert entry.1 entry.2 map) map) =
      find? name map := by
  induction entries generalizing map with
  | nil => rfl
  | cons entry entries induction =>
      simp only [List.map_cons, List.mem_cons, not_or] at unlisted
      rw [List.foldl_cons, induction unlisted.2, find?_insert_other unlisted.1]

theorem find?_ofEntries_of_not_mem (unlisted : name ∉ entries.map Prod.fst) :
    find? name (ofEntries entries) = none :=
  find?_foldl_of_not_mem unlisted []

theorem find?_ofEntries (distinct : (entries.map Prod.fst).Nodup)
    (member : (name, value) ∈ entries) : find? name (ofEntries entries) = some value := by
  obtain ⟨front, back, rfl⟩ := List.append_of_mem member
  have unlisted : name ∉ back.map Prod.fst := by
    rw [List.map_append, List.map_cons, List.nodup_append] at distinct
    exact (List.nodup_cons.mp distinct.2.1).1
  rw [ofEntries, List.foldl_append, List.foldl_cons, find?_foldl_of_not_mem unlisted,
    find?_insert_self]

end NameMap

section Distinct

variable {α β : Type} [DecidableEq α] [DecidableEq β]

theorem nodup_eraseDups (elements : List α) : elements.eraseDups.Nodup := by
  cases elements with
  | nil => exact List.nodup_nil
  | cons element elements =>
      rw [List.eraseDups_cons, List.nodup_cons]
      refine ⟨?_, nodup_eraseDups (elements.filter fun other => !other == element)⟩
      simp [List.mem_eraseDups]
termination_by elements.length
decreasing_by exact Nat.lt_succ_of_le (List.length_filter_le _ _)

/-- A function that keeps the elements apart neither adds nor hides repetitions. -/
theorem eraseDups_map {form : α → β} (elements : List α)
    (injective : ∀ element ∈ elements, ∀ other ∈ elements,
      form element = form other → element = other) :
    (elements.map form).eraseDups = elements.eraseDups.map form := by
  match elements, injective with
  | [], _ => rfl
  | element :: elements, injective =>
      have others : (elements.map form).filter (fun text => !text == form element) =
          (elements.filter fun other => !other == element).map form := by
        rw [List.filter_map]
        refine congrArg _ (List.filter_congr fun other member => ?_)
        have apart := injective other (List.mem_cons_of_mem _ member) element
          List.mem_cons_self
        have same : form other = form element ↔ other = element :=
          ⟨apart, congrArg form⟩
        rw [Function.comp_apply, Bool.eq_iff_iff]
        simp [same]
      have inner := eraseDups_map (elements.filter fun other => !other == element)
        fun first inFirst second inSecond =>
          injective first (List.mem_cons_of_mem _ (List.mem_filter.mp inFirst).1) second
            (List.mem_cons_of_mem _ (List.mem_filter.mp inSecond).1)
      rw [List.map_cons, List.eraseDups_cons, others, inner, List.eraseDups_cons,
        List.map_cons]
termination_by elements.length
decreasing_by exact Nat.lt_succ_of_le (List.length_filter_le _ _)

end Distinct

theorem distinctTexts_eq (earlier texts : List String) :
    distinctTexts earlier texts =
      (texts.filter fun text => !earlier.contains text).eraseDups := by
  induction texts generalizing earlier with
  | nil => rfl
  | cons text texts induction =>
      cases known : earlier.contains text with
      | true => simp only [distinctTexts, known, if_true, induction, List.filter_cons,
          Bool.not_true, Bool.false_eq_true, if_false]
      | false =>
          have later : (texts.filter fun other => !(text :: earlier).contains other) =
              (texts.filter fun other => !earlier.contains other).filter
                fun other => !other == text := by
            rw [List.filter_filter]
            refine List.filter_congr fun other _ => ?_
            rw [List.contains_cons, Bool.not_or, Bool.and_comm, Bool.and_comm]
          simp only [distinctTexts, known, Bool.false_eq_true, if_false, induction,
            List.filter_cons, Bool.not_false, if_true, List.eraseDups_cons, later]

theorem distinctTexts_nil (texts : List String) : distinctTexts [] texts = texts.eraseDups := by
  have all : (texts.filter fun text => !([] : List String).contains text) = texts :=
    List.filter_eq_self.mpr fun _ _ => rfl
  rw [distinctTexts_eq, all]

open Expression (IsLongest)

/-- Texts that start with longest runs of a class are the same run by run. -/
theorem append_inj_of_isLongest {member : Char → Bool} {run run' rest rest' : List Char}
    (longest : IsLongest member run rest) (longest' : IsLongest member run' rest')
    (same : run ++ rest = run' ++ rest') : run = run' ∧ rest = rest' := by
  have sameRun : run = run' := by
    rw [← longest.span.1, same, longest'.span.1]
  subst sameRun
  exact ⟨rfl, List.append_cancel_left same⟩

namespace UserType

/-- An entry that spells its type and relation with names and qualifies its type at most
once. -/
structure IsNamed (entry : UserType) : Prop where
  typeName : isName entry.typeName = true
  relation : ∀ relation, entry.relation = some relation → isName relation = true
  exclusive : entry.relation.isSome = true → entry.wildcard = false

/-- What is written behind the type. -/
def qualifier (entry : UserType) : List Char :=
  match entry.relation with
  | some relation => '#' :: relation.toList
  | none => if entry.wildcard then [':', '*'] else []

def conditionText (entry : UserType) : List Char :=
  match entry.condition with
  | some condition => " with ".toList ++ condition.toList
  | none => []

theorem toText_eq (entry : UserType) :
    entry.toText = entry.typeName.toList ++ (entry.qualifier ++ entry.conditionText) := by
  unfold toText qualifier conditionText
  cases entry.relation <;> cases entry.wildcard <;> cases entry.condition <;> simp

variable {entry other : UserType}

/-- The characters of the base type of a written user type. -/
def isBaseCharacter (character : Char) : Bool :=
  character ≠ '#' && character ≠ ':' && !Text.isBlank character

theorem isBaseCharacter_of_isName {name : String} (valid : isName name = true) :
    ∀ character ∈ name.toList, isBaseCharacter character = true := by
  intro character member
  have word := (isName_iff.mp valid).2.1 character member
  have noHash : character ≠ '#' := by
    rintro rfl
    exact absurd word (by decide)
  have noColon : character ≠ ':' := by
    rintro rfl
    exact absurd word (by decide)
  simp [isBaseCharacter, noHash, noColon, not_isBlank_of_isNameCharacter word]

theorem isLongest_typeName (named : entry.IsNamed) :
    IsLongest isBaseCharacter entry.typeName.toList
      (entry.qualifier ++ entry.conditionText) := by
  refine ⟨isBaseCharacter_of_isName named.typeName, ?_⟩
  intro character first
  unfold qualifier conditionText at first
  cases relation : entry.relation <;> cases wildcard : entry.wildcard <;>
    cases condition : entry.condition <;> simp [relation, wildcard, condition] at first
  all_goals
    obtain rfl := first
    rfl

theorem isLongest_qualifier (named : entry.IsNamed) :
    IsLongest (fun character => !Text.isBlank character) entry.qualifier
      entry.conditionText := by
  constructor
  · intro character member
    unfold qualifier at member
    split at member
    · rename_i relation spelled
      rcases List.mem_cons.mp member with rfl | inRelation
      · rfl
      · have word := (isName_iff.mp (named.relation relation spelled)).2.1 character inRelation
        rw [not_isBlank_of_isNameCharacter word]
        rfl
    · split at member
      · simp only [List.mem_cons, List.not_mem_nil, or_false] at member
        rcases member with rfl | rfl <;> rfl
      · cases member
  · intro character first
    unfold conditionText at first
    cases condition : entry.condition with
    | none => simp [condition] at first
    | some name =>
        obtain rfl : ' ' = character := by simpa [condition] using first
        rfl

theorem qualifier_injective (named : entry.IsNamed) (named' : other.IsNamed)
    (same : entry.qualifier = other.qualifier) :
    entry.relation = other.relation ∧ entry.wildcard = other.wildcard := by
  have exclusive := named.exclusive
  have exclusive' := named'.exclusive
  unfold qualifier at same
  cases relation : entry.relation with
  | some name =>
      cases relation' : other.relation with
      | some name' =>
          simp only [relation, relation', List.cons.injEq, true_and, String.toList_inj] at same
          rw [exclusive (by rw [relation]; rfl), exclusive' (by rw [relation']; rfl)]
          exact ⟨congrArg some same, rfl⟩
      | none => cases wildcard : other.wildcard <;> simp [relation, relation', wildcard] at same
  | none =>
      cases relation' : other.relation with
      | some name' =>
          cases wildcard : entry.wildcard <;> simp [relation, relation', wildcard] at same
      | none =>
          refine ⟨rfl, ?_⟩
          cases wildcard : entry.wildcard <;> cases wildcard' : other.wildcard <;>
            simp [relation, relation', wildcard, wildcard'] at same ⊢

theorem conditionText_injective (same : entry.conditionText = other.conditionText) :
    entry.condition = other.condition := by
  unfold conditionText at same
  cases condition : entry.condition <;> cases condition' : other.condition <;>
    simp_all [String.toList_inj]

/-- The base type of a written user type is the name of its type. -/
theorem baseType_toString (named : entry.IsNamed) :
    Metadata.baseType (toString entry) = entry.typeName := by
  have run : entry.toText.takeWhile isBaseCharacter = entry.typeName.toList := by
    rw [toText_eq]
    exact (isLongest_typeName named).span.1
  have text : (toString entry).toList = entry.toText := String.toList_ofList
  unfold Metadata.baseType
  rw [text]
  exact (congrArg String.ofList run).trans String.ofList_toList

/-- User types with the same text are the same. -/
theorem toString_injective (named : entry.IsNamed) (named' : other.IsNamed)
    (same : toString entry = toString other) : entry = other := by
  have texts : entry.toText = other.toText := String.ofList_injective same
  rw [toText_eq, toText_eq] at texts
  obtain ⟨types, behind⟩ :=
    append_inj_of_isLongest (isLongest_typeName named) (isLongest_typeName named') texts
  obtain ⟨qualifiers, conditions⟩ :=
    append_inj_of_isLongest (isLongest_qualifier named) (isLongest_qualifier named') behind
  obtain ⟨relations, wildcards⟩ := qualifier_injective named named' qualifiers
  have sameType : entry.typeName = other.typeName := String.toList_inj.mp types
  have sameCondition := conditionText_injective conditions
  cases entry
  cases other
  simp_all

end UserType

namespace Relation

variable {fallback : String} {relation : Relation} {model : Model}

/-- Whether users of a type are offered: some entry names the type, or there is no entry and
the fallback names it. -/
def Offers (fallback userType : String) (relation : Relation) : Prop :=
  (∃ entry ∈ relation.userTypes, entry.typeName = userType) ∨
    (relation.userTypes = [] ∧ Metadata.baseType fallback = userType)

instance (fallback userType : String) (relation : Relation) :
    Decidable (relation.Offers fallback userType) :=
  haveI := List.decidableBEx (fun entry : UserType => entry.typeName = userType)
    relation.userTypes
  inferInstanceAs (Decidable (_ ∨ _))

theorem offeredUserTypes_eq (named : ∀ entry ∈ relation.userTypes, entry.IsNamed) :
    relation.offeredUserTypes fallback =
      if relation.userTypes = [] then [fallback]
      else relation.userTypes.eraseDups.map toString := by
  have distinct : distinctTexts [] (relation.userTypes.map toString) =
      relation.userTypes.eraseDups.map toString := by
    rw [distinctTexts_nil]
    exact eraseDups_map _ fun entry member other member' =>
      UserType.toString_injective (named entry member) (named other member')
  unfold offeredUserTypes
  rw [distinct]
  cases relation.userTypes with
  | nil => rfl
  | cons entry entries =>
      rw [List.eraseDups_cons, List.map_cons, if_neg (List.cons_ne_nil _ _)]

theorem any_offeredUserTypes (named : ∀ entry ∈ relation.userTypes, entry.IsNamed)
    (userType : String) :
    (relation.offeredUserTypes fallback).any (Metadata.baseType · = userType) =
      decide (relation.Offers fallback userType) := by
  rw [offeredUserTypes_eq named, Bool.eq_iff_iff, decide_eq_true_eq]
  unfold Offers
  by_cases bare : relation.userTypes = []
  · simp [bare]
  · rw [if_neg bare]
    simp only [List.any_map, List.any_eq_true, List.mem_eraseDups, Function.comp_apply,
      decide_eq_true_eq, bare, false_and, or_false]
    refine exists_congr fun entry => and_congr_right fun member => ?_
    rw [UserType.baseType_toString (named entry member)]

/-- The condition of a relation is that of the first entry with a condition that the model
defines. -/
theorem definedCondition?_eq_some_iff {condition : Condition} :
    relation.definedCondition? model = some condition ↔
      ∃ earlier entry later name, relation.userTypes = earlier ++ entry :: later ∧
        entry.condition = some name ∧ model.condition? name = some condition ∧
          ∀ other ∈ earlier, ∀ reference, other.condition = some reference →
            model.condition? reference = none := by
  have direct : relation.definedCondition? model =
      relation.userTypes.findSome? fun entry => entry.condition.bind model.condition? := by
    rw [definedCondition?, ← List.head?_filterMap, List.filterMap_filterMap,
      List.head?_filterMap]
  rw [direct, List.findSome?_eq_some_iff]
  constructor
  · rintro ⟨earlier, entry, later, split, found, missing⟩
    obtain ⟨name, reference, defined⟩ := Option.bind_eq_some_iff.mp found
    refine ⟨earlier, entry, later, name, split, reference, defined, ?_⟩
    intro other member reference' referred
    simpa [referred] using missing other member
  · rintro ⟨earlier, entry, later, name, split, reference, defined, missing⟩
    refine ⟨earlier, entry, later, split, by rw [reference]; exact defined, ?_⟩
    intro other member
    cases referred : other.condition with
    | none => rfl
    | some reference' => exact missing other member reference' referred

end Relation

namespace Metadata

section ByName

variable (fallback : String) {model : Model} {type : TypeDefinition} {relation : Relation}

theorem find?_types (typeNames : (model.types.map (·.name)).Nodup)
    (declared : type ∈ model.types) :
    NameMap.find? type.name (ofModel fallback model).types =
      some (TypeMetadata.ofType fallback model type) := by
  apply NameMap.find?_ofEntries
  · simpa [Function.comp_def] using typeNames
  · exact List.mem_map.mpr ⟨type, declared, rfl⟩

theorem find?_types_of_not_mem {name : String} (unknown : name ∉ model.types.map (·.name)) :
    NameMap.find? name (ofModel fallback model).types = none := by
  apply NameMap.find?_ofEntries_of_not_mem
  simpa [Function.comp_def] using unknown

variable (model)

theorem find?_userTypes (relationNames : type.relationNames.Nodup)
    (declared : relation ∈ type.relations) :
    NameMap.find? relation.name (TypeMetadata.ofType fallback model type).userTypes =
      some (relation.offeredUserTypes fallback) := by
  apply NameMap.find?_ofEntries
  · simpa [Function.comp_def, TypeDefinition.relationNames] using relationNames
  · exact List.mem_map.mpr ⟨relation, declared, rfl⟩

theorem find?_userTypes_of_not_mem {name : String} (unknown : name ∉ type.relationNames) :
    NameMap.find? name (TypeMetadata.ofType fallback model type).userTypes = none := by
  apply NameMap.find?_ofEntries_of_not_mem
  simpa [Function.comp_def, TypeDefinition.relationNames] using unknown

theorem conditionNames_sublist (relations : List Relation) :
    ((relations.filterMap fun relation =>
      (relation.definedCondition? model).map fun condition =>
        (relation.name, condition)).map Prod.fst).Sublist (relations.map (·.name)) := by
  induction relations with
  | nil => exact List.Sublist.slnil
  | cons relation relations induction =>
      cases defined : relation.definedCondition? model with
      | none => simpa [defined] using induction.cons relation.name
      | some condition => simpa [defined] using induction.cons_cons relation.name

theorem find?_conditions_of_not_mem {name : String} (unknown : name ∉ type.relationNames) :
    NameMap.find? name (TypeMetadata.ofType fallback model type).conditions = none :=
  NameMap.find?_ofEntries_of_not_mem fun member =>
    unknown ((conditionNames_sublist model type.relations).subset member)

theorem find?_conditions (relationNames : type.relationNames.Nodup)
    (declared : relation ∈ type.relations) :
    NameMap.find? relation.name (TypeMetadata.ofType fallback model type).conditions =
      relation.definedCondition? model := by
  cases defined : relation.definedCondition? model with
  | some condition =>
      apply NameMap.find?_ofEntries
      · exact relationNames.sublist (conditionNames_sublist model type.relations)
      · exact List.mem_filterMap.mpr ⟨relation, declared, by rw [defined]; rfl⟩
  | none =>
      apply NameMap.find?_ofEntries_of_not_mem
      intro member
      obtain ⟨⟨name, condition⟩, entry, same⟩ := List.mem_map.mp member
      obtain ⟨other, inType, shape⟩ := List.mem_filterMap.mp entry
      obtain ⟨found, otherDefined, pair⟩ := Option.map_eq_some_iff.mp shape
      have sameName : other.name = relation.name := by rw [← same, ← pair]
      obtain rfl := List.inj_on_of_nodup_map relationNames inType declared sameName
      rw [defined] at otherDefined
      cases otherDefined

end ByName

/-- Look-ups in the metadata of a model whose types, and relations of a type, have different
names.  A relation accepts the types of its entries, or that of the fallback if it has none.
The offered texts are those of its entries in their order, each entry once, and different
entries have different texts. -/
theorem ofModel_lookups (fallback : String) {model : Model}
    (typeNames : (model.types.map (·.name)).Nodup)
    (relationNames : ∀ type ∈ model.types, type.relationNames.Nodup)
    (named : ∀ type ∈ model.types, ∀ relation ∈ type.relations,
      ∀ entry ∈ relation.userTypes, entry.IsNamed) :
    (∀ type ∈ model.types,
      (∀ userType, (ofModel fallback model).relationsAccepting type.name userType =
        (type.relations.filter (·.Offers fallback userType)).map (·.name)) ∧
      (∀ relation ∈ type.relations,
        (ofModel fallback model).userTypesFor? type.name relation.name =
            some (if relation.userTypes = [] then [fallback]
              else relation.userTypes.eraseDups.map toString) ∧
          (relation.userTypes.eraseDups.map toString).Nodup ∧
            ∀ condition,
              (ofModel fallback model).conditionFor? type.name relation.name =
                  some condition ↔
                ∃ earlier entry later name, relation.userTypes = earlier ++ entry :: later ∧
                  entry.condition = some name ∧ model.condition? name = some condition ∧
                    ∀ other ∈ earlier, ∀ reference, other.condition = some reference →
                      model.condition? reference = none) ∧
      ∀ name ∉ type.relationNames,
        (ofModel fallback model).userTypesFor? type.name name = none ∧
          (ofModel fallback model).conditionFor? type.name name = none) ∧
    ∀ name ∉ model.types.map (·.name),
      (∀ userType, (ofModel fallback model).relationsAccepting name userType = []) ∧
        ∀ relation, (ofModel fallback model).userTypesFor? name relation = none ∧
          (ofModel fallback model).conditionFor? name relation = none := by
  refine ⟨fun type declared => ⟨?_, ?_, ?_⟩, fun name unknown => ⟨?_, ?_⟩⟩
  · intro userType
    rw [relationsAccepting, find?_types fallback typeNames declared]
    simp only [TypeMetadata.ofType, TypeDefinition.relationNames, List.filter_map]
    refine congrArg _ (List.filter_congr fun relation inType => ?_)
    have texts := find?_userTypes fallback model (relationNames type declared) inType
    simp only [TypeMetadata.ofType] at texts
    rw [Function.comp_apply, texts]
    exact Relation.any_offeredUserTypes (named type declared relation inType) userType
  · intro relation inType
    have entries := named type declared relation inType
    have found := find?_types fallback typeNames declared
    refine ⟨?_, ?_, fun condition => ?_⟩
    · rw [userTypesFor?, found, ← Relation.offeredUserTypes_eq entries]
      exact find?_userTypes fallback model (relationNames type declared) inType
    · rw [List.nodup_map_iff_inj_on (nodup_eraseDups _)]
      intro entry member other member' same
      exact UserType.toString_injective (entries entry (List.mem_eraseDups.mp member))
        (entries other (List.mem_eraseDups.mp member')) same
    · rw [← Relation.definedCondition?_eq_some_iff, conditionFor?, found]
      rw [← find?_conditions fallback model (relationNames type declared) inType]
      rfl
  · intro name unknown
    rw [userTypesFor?, conditionFor?, find?_types fallback typeNames declared]
    exact ⟨find?_userTypes_of_not_mem fallback model unknown,
      find?_conditions_of_not_mem fallback model unknown⟩
  · intro userType
    rw [relationsAccepting, find?_types_of_not_mem fallback unknown]
  · intro relation
    rw [userTypesFor?, conditionFor?, find?_types_of_not_mem fallback unknown]
    exact ⟨rfl, rfl⟩

/-- A model with a relation that anyone and the members of a group can be assigned to, the
latter under a condition, and with one that nobody can be assigned to. -/
def sharedModel : Model :=
  { schemaVersion := "1.1"
    types := [
      { name := "user", relations := [] },
      { name := "group"
        relations := [
          { name := "member", rule := .direct, userTypes := [.plain "user"] }] },
      { name := "doc"
        relations := [
          { name := "viewer", rule := .direct
            userTypes := [
              { UserType.plain "user" with wildcard := true, condition := some "missing" },
              { UserType.plain "group" with relation := some "member", condition := some "c" },
              { UserType.plain "group" with relation := some "member", condition := some "c" }] },
          { name := "reader", rule := .computed "viewer", userTypes := [] }] }]
    conditions := [
      { name := "c", parameters := [⟨"a", .int⟩], expression := "a > 1" }] }

theorem ofModel_lookups_shared :
    ((sharedModel.types.map (·.name)).Nodup ∧
      (∀ type ∈ sharedModel.types, type.relationNames.Nodup) ∧
        ∀ type ∈ sharedModel.types, ∀ relation ∈ type.relations,
          ∀ entry ∈ relation.userTypes, entry.IsNamed) ∧
      (ofModel "group#any" sharedModel).relationsAccepting "doc" "group" =
          ["viewer", "reader"] ∧
        (ofModel "group#any" sharedModel).userTypesFor? "doc" "viewer" =
          some ["user:* with missing", "group#member with c"] := by
  have typeNames : (sharedModel.types.map (·.name)).Nodup := by decide
  have relationNames : ∀ type ∈ sharedModel.types, type.relationNames.Nodup := by decide
  have named : ∀ type ∈ sharedModel.types, ∀ relation ∈ type.relations,
      ∀ entry ∈ relation.userTypes, entry.IsNamed := by
    have spelled : ∀ type ∈ sharedModel.types, ∀ relation ∈ type.relations,
        ∀ entry ∈ relation.userTypes, isName entry.typeName = true ∧
          entry.relation.all isName = true ∧
            (entry.relation.isSome = true → entry.wildcard = false) := by
      decide +kernel
    intro type declared relation inType entry member
    obtain ⟨typeName, relationName, exclusive⟩ :=
      spelled type declared relation inType entry member
    exact ⟨typeName, fun name some => by simpa [some] using relationName, exclusive⟩
  obtain ⟨known, _⟩ := ofModel_lookups "group#any" typeNames relationNames named
  obtain ⟨accepting, offered, _⟩ := known sharedModel.types[2] (by decide)
  refine ⟨⟨typeNames, relationNames, named⟩, (accepting "group").trans (by decide +kernel), ?_⟩
  exact (offered sharedModel.types[2].relations[0] (by decide)).1.trans (by decide +kernel)

end Metadata

end Rebac
