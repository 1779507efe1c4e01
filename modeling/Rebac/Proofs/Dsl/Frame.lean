import Rebac.Proofs.Dsl.Draft

/-!
# What statements leave alone

A statement that is no condition neither uses nor changes the conditions of a draft, and a
condition uses and changes nothing else, except that it closes the open type.  No statement
looks at the conditions in front of those that it adds, only at their names.
-/

namespace Rebac.Dsl.Draft

/-- The texts of statements that take one draft to another. -/
inductive Takes : Draft → List (List Char) → Draft → Prop where
  | nil {draft : Draft} : Takes draft [] draft
  | cons {draft next final : Draft} {text : List Char} {texts : List (List Char)} :
      draft.applyText text = .ok next →
      Takes next texts final →
      Takes draft (text :: texts) final

variable {draft next final : Draft} {text : List Char} {texts : List (List Char)}

theorem takes_nil_iff : Takes draft [] final ↔ final = draft := by
  constructor
  · intro takes
    cases takes
    rfl
  · rintro rfl
    exact .nil

theorem takes_cons_iff :
    Takes draft (text :: texts) final ↔
      ∃ next, draft.applyText text = .ok next ∧ Takes next texts final := by
  constructor
  · intro takes
    cases takes with
    | cons applied later => exact ⟨_, applied, later⟩
  · rintro ⟨next, applied, later⟩
    exact .cons applied later

theorem takes_append_iff {front back : List (List Char)} :
    Takes draft (front ++ back) final ↔
      ∃ middle, Takes draft front middle ∧ Takes middle back final := by
  induction front generalizing draft with
  | nil => simp [takes_nil_iff]
  | cons text front induction =>
      simp only [List.cons_append, takes_cons_iff, induction]
      constructor
      · rintro ⟨next, applied, middle, earlier, later⟩
        exact ⟨middle, ⟨next, applied, earlier⟩, later⟩
      · rintro ⟨middle, ⟨next, applied, earlier⟩, later⟩
        exact ⟨next, applied, middle, earlier, later⟩

/-- Only the texts of statements decide what they do. -/
theorem applyAll_eq_ok_iff {statements : List Statement} :
    draft.applyAll statements = .ok final ↔ Takes draft (statements.map (·.text)) final := by
  induction statements generalizing draft with
  | nil => rw [List.map_nil, takes_nil_iff, applyAll, Except.ok.injEq, eq_comm]
  | cons statement statements induction =>
      rw [applyAll_cons_eq_ok_iff, List.map_cons, takes_cons_iff]
      simp only [induction]

theorem addCondition_eq_ok_iff :
    draft.addCondition text = .ok next ↔
      ∃ condition, Condition.ofText text = .ok condition ∧
        condition.name ∉ draft.conditionNames ∧ next = draft.withCondition condition := by
  constructor
  · exact step_of_addCondition
  · rintro ⟨condition, read, fresh, rfl⟩
    simp [addCondition, read, fresh, withCondition]

/-- The draft with other conditions declared. -/
def declaring (draft : Draft) (conditions : List Condition) (names : List String) : Draft :=
  { draft with
    model := { draft.model with conditions }
    conditionNames := names }

theorem openType_declaring (conditions : List Condition) (names : List String)
    (name : String) :
    (draft.declaring conditions names).openType name =
      (draft.openType name).map (·.declaring conditions names) := by
  have sameTypes : (draft.declaring conditions names).model.hasType name =
      draft.model.hasType name := rfl
  unfold openType
  rw [sameTypes]
  split
  · split <;> rfl
  · rfl

theorem define_declaring (conditions : List Condition) (names : List String)
    (definition : List Char) :
    (draft.declaring conditions names).define definition =
      (draft.define definition).map (·.declaring conditions names) := by
  have sameCurrent : (draft.declaring conditions names).current = draft.current := rfl
  have sameTypes : (draft.declaring conditions names).model.types = draft.model.types := rfl
  unfold define
  rw [sameCurrent]
  cases draft.current with
  | none => rfl
  | some position =>
      simp only [sameTypes]
      cases draft.model.types[position]? with
      | none => rfl
      | some type =>
          cases Text.splitOnce ':' definition with
          | none => rfl
          | some parts =>
              simp only
              split
              · split
                · rfl
                · split <;> rfl
              · rfl

/-- A statement that is no condition has the same effect whatever conditions are declared,
and keeps them. -/
theorem applyText_declaring (noCondition : startsCondition text = false)
    (conditions : List Condition) (names : List String) :
    (draft.declaring conditions names).applyText text =
      (draft.applyText text).map (·.declaring conditions names) := by
  have sameCurrent : (draft.declaring conditions names).current = draft.current := rfl
  simp only [applyText, noCondition, Bool.false_eq_true, if_false, sameCurrent]
  split
  · rfl
  · split
    · rename_i version _
      unfold setSchema
      split <;> rfl
    · split
      · exact openType_declaring conditions names _
      · split
        · split <;> rfl
        · split
          · exact define_declaring conditions names _
          · rfl

theorem takes_declaring_iff (noCondition : ∀ text ∈ texts, startsCondition text = false)
    (conditions : List Condition) (names : List String) :
    Takes (draft.declaring conditions names) texts final ↔
      ∃ own, Takes draft texts own ∧ final = own.declaring conditions names := by
  induction texts generalizing draft with
  | nil => simp [takes_nil_iff]
  | cons text texts induction =>
      have first : (draft.declaring conditions names).applyText text =
          (draft.applyText text).map (·.declaring conditions names) :=
        applyText_declaring (noCondition text List.mem_cons_self) conditions names
      have others := fun other member => noCondition other (List.mem_cons_of_mem text member)
      simp only [takes_cons_iff, first, map_eq_ok_iff]
      constructor
      · rintro ⟨_, ⟨next, applied, rfl⟩, later⟩
        obtain ⟨own, rest, same⟩ := (induction others).mp later
        exact ⟨own, ⟨next, applied, rest⟩, same⟩
      · rintro ⟨own, ⟨next, applied, rest⟩, same⟩
        exact ⟨_, ⟨next, applied, rfl⟩, (induction others).mpr ⟨own, rest, same⟩⟩

theorem Takes.conditions_eq (takes : Takes draft texts final)
    (noCondition : ∀ text ∈ texts, startsCondition text = false) :
    final.model.conditions = draft.model.conditions ∧
      final.conditionNames = draft.conditionNames := by
  obtain ⟨own, _, rfl⟩ := (takes_declaring_iff noCondition draft.model.conditions
    draft.conditionNames).mp takes
  exact ⟨rfl, rfl⟩

theorem applyText_of_condition (condition : startsCondition text = true) :
    draft.applyText text = draft.addCondition text := by
  simp only [applyText, condition, if_true]

theorem Takes.exists_declared (takes : Takes draft texts final) :
    ∃ added, final.model.conditions = draft.model.conditions ++ added ∧
      ∀ conditions, Takes (draft.declaring conditions draft.conditionNames) texts
        (final.declaring (conditions ++ added) final.conditionNames) := by
  induction takes with
  | nil => exact ⟨[], by simp, fun conditions => by rw [List.append_nil]; exact .nil⟩
  | cons applied later induction =>
      rename_i draft next final text texts
      obtain ⟨added, declared, exchange⟩ := induction
      cases condition : startsCondition text with
      | false =>
          obtain ⟨sameConditions, sameNames⟩ : next.model.conditions = draft.model.conditions ∧
              next.conditionNames = draft.conditionNames :=
            (Takes.cons applied .nil).conditions_eq (by simpa using condition)
          rw [sameConditions] at declared
          refine ⟨added, declared, fun conditions => .cons ?_ (exchange conditions)⟩
          rw [applyText_declaring condition, applied, sameNames]
          rfl
      | true =>
          rw [applyText_of_condition condition, addCondition_eq_ok_iff] at applied
          obtain ⟨read, found, fresh, rfl⟩ := applied
          refine ⟨read :: added, by simpa [withCondition] using declared, fun conditions => ?_⟩
          have rest := exchange (conditions ++ [read])
          rw [List.append_assoc, List.singleton_append] at rest
          refine .cons ?_ rest
          rw [applyText_of_condition condition, addCondition_eq_ok_iff]
          exact ⟨read, found, fresh, rfl⟩

/-- A declared condition comes from one of the statements.  A statement that reads as another
condition of its name can take its place. -/
theorem Takes.exists_condition {condition : Condition} {earlier later : List Condition}
    (takes : Takes draft texts final)
    (listed : final.model.conditions =
      draft.model.conditions ++ (earlier ++ condition :: later)) :
    ∃ before text after, texts = before ++ text :: after ∧ startsCondition text = true ∧
      Condition.ofText text = .ok condition ∧
        ∀ {other otherCondition}, startsCondition other = true →
          Condition.ofText other = .ok otherCondition →
          otherCondition.name = condition.name →
          Takes draft (before ++ other :: after)
            (final.declaring
              (draft.model.conditions ++ (earlier ++ otherCondition :: later))
              final.conditionNames) := by
  induction takes generalizing earlier with
  | nil => simp at listed
  | cons applied rest induction =>
      rename_i draft next final text texts
      cases starts : startsCondition text with
      | false =>
          obtain ⟨sameConditions, _⟩ : next.model.conditions = draft.model.conditions ∧
              next.conditionNames = draft.conditionNames :=
            (Takes.cons applied .nil).conditions_eq (by simpa using starts)
          rw [← sameConditions] at listed ⊢
          obtain ⟨before, found, after, rfl, isCondition, read, exchange⟩ := induction listed
          refine ⟨text :: before, found, after, rfl, isCondition, read, ?_⟩
          intro other otherCondition otherStarts otherRead sameName
          exact .cons applied (exchange otherStarts otherRead sameName)
      | true =>
          rw [applyText_of_condition starts, addCondition_eq_ok_iff] at applied
          obtain ⟨added, found, fresh, rfl⟩ := applied
          have single : (draft.withCondition added).model.conditions =
              draft.model.conditions ++ [added] := rfl
          obtain ⟨more, declared, exchange⟩ := rest.exists_declared
          rw [single, List.append_assoc, listed, List.append_cancel_left_eq] at declared
          cases earlier with
          | nil =>
              obtain ⟨rfl, rfl⟩ := List.cons.inj declared
              refine ⟨[], text, texts, rfl, starts, found, ?_⟩
              intro other otherCondition otherStarts otherRead sameName
              have behind := exchange (draft.model.conditions ++ [otherCondition])
              rw [List.append_assoc, List.singleton_append] at behind
              refine .cons ?_ behind
              rw [applyText_of_condition otherStarts, addCondition_eq_ok_iff]
              refine ⟨otherCondition, otherRead, sameName ▸ fresh, ?_⟩
              rw [withCondition, withCondition, sameName]
              rfl
          | cons first earlier =>
              obtain ⟨rfl, _⟩ := List.cons.inj declared
              have behindFirst : ∀ conditions : List Condition,
                  draft.model.conditions ++ (first :: conditions) =
                    (draft.withCondition first).model.conditions ++ conditions := by
                intro conditions
                rw [single, List.append_assoc]
                rfl
              simp only [List.cons_append, behindFirst] at listed ⊢
              obtain ⟨before, last, after, rfl, isCondition, read, exchange⟩ := induction listed
              refine ⟨text :: before, last, after, rfl, isCondition, read, ?_⟩
              intro other otherCondition otherStarts otherRead sameName
              refine .cons ?_ (exchange otherStarts otherRead sameName)
              rw [applyText_of_condition starts, addCondition_eq_ok_iff]
              exact ⟨first, found, fresh, rfl⟩

end Rebac.Dsl.Draft
