import Rebac.Proofs.Dsl.Frame

/-!
# Types and conditions in any order

A block of statements about one type and a condition can change places: a condition adds
nothing that the block looks at, and the type that is open in front of the block does not
matter to it.  So all interleavings of blocks and conditions are read alike.
-/

namespace Rebac.Dsl

/-- A `type` statement with the statements that add to the type. -/
inductive IsTypeBlock : List (List Char) → Prop where
  | type {text : List Char} :
      (afterKeyword? "type".toList text).isSome = true → IsTypeBlock [text]
  | relations {block : List (List Char)} :
      IsTypeBlock block → IsTypeBlock (block ++ ["relations".toList])
  | define {block : List (List Char)} {text : List Char} :
      IsTypeBlock block → (afterKeyword? "define".toList text).isSome = true →
      IsTypeBlock (block ++ [text])

/-- The statements of some blocks and some conditions, each in their order. -/
inductive Interleaves :
    List (List (List Char)) → List (List Char) → List (List Char) → Prop where
  | nil : Interleaves [] [] []
  | block {block : List (List Char)} {blocks : List (List (List Char))}
      {conditions merged : List (List Char)} :
      Interleaves blocks conditions merged →
      Interleaves (block :: blocks) conditions (block ++ merged)
  | condition {text : List Char} {blocks : List (List (List Char))}
      {conditions merged : List (List Char)} :
      Interleaves blocks conditions merged →
      Interleaves blocks (text :: conditions) (text :: merged)

variable {blocks : List (List (List Char))} {conditions merged other : List (List Char)}

theorem interleaves_conditions_append (blocks : List (List (List Char)))
    (conditions : List (List Char)) :
    Interleaves blocks conditions (conditions ++ blocks.flatten) := by
  induction conditions with
  | cons text conditions induction => exact .condition induction
  | nil =>
      induction blocks with
      | nil => exact .nil
      | cons block blocks induction => exact .block induction

theorem exists_append_of_afterKeyword? {keyword text : List Char}
    (found : (afterKeyword? keyword text).isSome = true) : ∃ rest, text = keyword ++ rest := by
  unfold afterKeyword? at found
  split at found
  · cases found
  · rename_i stripped
    exact ⟨_, (List.isPrefixOf?_eq_some_iff_append_eq.mp stripped).symm⟩
  · rename_i stripped
    exact ⟨_, (List.isPrefixOf?_eq_some_iff_append_eq.mp stripped).symm⟩

theorem IsTypeBlock.noCondition {block : List (List Char)} (isBlock : IsTypeBlock block) :
    ∀ text ∈ block, startsCondition text = false := by
  induction isBlock with
  | type keyword =>
      intro text member
      obtain rfl := List.mem_singleton.mp member
      obtain ⟨rest, rfl⟩ := exists_append_of_afterKeyword? keyword
      rfl
  | relations isBlock induction =>
      intro text member
      rcases List.mem_append.mp member with earlier | last
      · exact induction text earlier
      · obtain rfl := List.mem_singleton.mp last
        rfl
  | define isBlock keyword induction =>
      intro text member
      rcases List.mem_append.mp member with earlier | last
      · exact induction text earlier
      · obtain rfl := List.mem_singleton.mp last
        obtain ⟨rest, rfl⟩ := exists_append_of_afterKeyword? keyword
        rfl

theorem IsTypeBlock.exists_head {block : List (List Char)} (isBlock : IsTypeBlock block) :
    ∃ text members, (afterKeyword? "type".toList text).isSome = true ∧
      block = text :: members := by
  induction isBlock with
  | type keyword => exact ⟨_, [], keyword, rfl⟩
  | relations isBlock induction =>
      obtain ⟨text, members, keyword, rfl⟩ := induction
      exact ⟨text, _, keyword, List.cons_append⟩
  | define isBlock defines induction =>
      obtain ⟨text, members, keyword, rfl⟩ := induction
      exact ⟨text, _, keyword, List.cons_append⟩

namespace Draft

variable {draft next final result : Draft} {text : List Char} {texts rest : List (List Char)}

/-- The draft with no type open. -/
def closed (draft : Draft) : Draft :=
  { draft with current := none }

/-- Which type is open does not matter to statements that open another or none. -/
def StartsAfresh (texts : List (List Char)) : Prop :=
  ∀ draft : Draft, ∀ text ∈ texts.head?, draft.closed.applyText text = draft.applyText text

theorem applyText_closed_of_condition (condition : startsCondition text = true) :
    draft.closed.applyText text = draft.applyText text := by
  simp only [applyText, condition, if_true]
  rfl

theorem applyText_closed_of_type (keyword : (afterKeyword? "type".toList text).isSome = true) :
    draft.closed.applyText text = draft.applyText text := by
  obtain ⟨rest, rfl⟩ := exists_append_of_afterKeyword? keyword
  have noCondition : startsCondition ("type".toList ++ rest) = false := rfl
  have noModel : "type".toList ++ rest ≠ "model".toList := by simp
  have noSchema : argument? "schema".toList ("type".toList ++ rest) = none := rfl
  have noRelations : "type".toList ++ rest ≠ "relations".toList := by simp
  have noDefine : afterKeyword? "define".toList ("type".toList ++ rest) = none := rfl
  simp only [applyText, noCondition, Bool.false_eq_true, if_false, if_neg noModel, noSchema,
    if_neg noRelations, noDefine]
  cases argument? "type".toList ("type".toList ++ rest) with
  | none => rfl
  | some name => rfl

theorem startsAfresh_of_interleaves (interleaves : Interleaves blocks conditions merged)
    (areBlocks : ∀ block ∈ blocks, IsTypeBlock block)
    (areConditions : ∀ text ∈ conditions, startsCondition text = true) :
    StartsAfresh merged := by
  cases interleaves with
  | nil => simp [StartsAfresh]
  | block later =>
      rename_i block blocks merged
      obtain ⟨text, members, keyword, rfl⟩ :=
        (areBlocks block List.mem_cons_self).exists_head
      intro draft other first
      obtain rfl : text = other := by simpa using first
      exact applyText_closed_of_type keyword
  | condition later =>
      rename_i condition conditions merged
      intro draft other first
      obtain rfl : condition = other := by simpa using first
      exact applyText_closed_of_condition (areConditions condition List.mem_cons_self)

/-- The texts lead to a draft, whatever type is open in the end. -/
def Ends (draft : Draft) (texts : List (List Char)) (result : Draft) : Prop :=
  ∃ final, Takes draft texts final ∧ final.closed = result

theorem ends_append_iff {front back : List (List Char)} :
    Ends draft (front ++ back) result ↔
      ∃ middle, Takes draft front middle ∧ Ends middle back result := by
  simp only [Ends, takes_append_iff]
  constructor
  · rintro ⟨final, ⟨middle, earlier, later⟩, same⟩
    exact ⟨middle, earlier, final, later, same⟩
  · rintro ⟨middle, earlier, final, later, same⟩
    exact ⟨final, ⟨middle, earlier, later⟩, same⟩

theorem ends_cons_iff :
    Ends draft (text :: texts) result ↔
      ∃ next, draft.applyText text = .ok next ∧ Ends next texts result := by
  simp only [Ends, takes_cons_iff]
  constructor
  · rintro ⟨final, ⟨next, applied, later⟩, same⟩
    exact ⟨next, applied, final, later, same⟩
  · rintro ⟨next, applied, final, later, same⟩
    exact ⟨final, ⟨next, applied, later⟩, same⟩

theorem ends_closed_iff (afresh : StartsAfresh texts) :
    Ends draft.closed texts result ↔ Ends draft texts result := by
  cases texts with
  | nil => simp [Ends, takes_nil_iff, closed]
  | cons text texts => rw [ends_cons_iff, ends_cons_iff, afresh draft text rfl]

theorem takes_block_closed_iff {block : List (List Char)} (isBlock : IsTypeBlock block) :
    Takes draft.closed block final ↔ Takes draft block final := by
  obtain ⟨text, members, keyword, rfl⟩ := isBlock.exists_head
  rw [takes_cons_iff, takes_cons_iff, applyText_closed_of_type keyword]

/-- A block does the same behind a condition as in front of it. -/
theorem ends_block_condition_iff {block : List (List Char)} (isBlock : IsTypeBlock block)
    (isCondition : startsCondition text = true) (afresh : StartsAfresh rest) :
    Ends draft (block ++ text :: rest) result ↔ Ends draft (text :: (block ++ rest)) result := by
  have declared : ∀ {draft : Draft}, draft.applyText text = draft.addCondition text :=
    applyText_of_condition isCondition
  -- The draft behind a condition differs from the one in front in what the block ignores.
  have behind : ∀ {condition : Condition} {final : Draft},
      Takes (draft.withCondition condition) block final ↔
        ∃ own, Takes draft block own ∧
          final = own.declaring (draft.model.conditions ++ [condition])
            (condition.name :: draft.conditionNames) := by
    intro condition final
    have shape : draft.withCondition condition =
        (draft.declaring (draft.model.conditions ++ [condition])
          (condition.name :: draft.conditionNames)).closed := rfl
    rw [shape, takes_block_closed_iff isBlock, takes_declaring_iff isBlock.noCondition]
  rw [ends_append_iff, ends_cons_iff]
  simp only [ends_cons_iff, ends_append_iff, declared, addCondition_eq_ok_iff]
  constructor
  · rintro ⟨own, takes, _, ⟨condition, read, fresh, rfl⟩, later⟩
    obtain ⟨sameConditions, sameNames⟩ := takes.conditions_eq isBlock.noCondition
    refine ⟨_, ⟨condition, read, sameNames ▸ fresh, rfl⟩, _, behind.mpr ⟨own, takes, rfl⟩, ?_⟩
    rw [← ends_closed_iff afresh]
    rw [← sameConditions, ← sameNames]
    exact later
  · rintro ⟨_, ⟨condition, read, fresh, rfl⟩, _, extended, later⟩
    obtain ⟨own, takes, rfl⟩ := behind.mp extended
    obtain ⟨sameConditions, sameNames⟩ := takes.conditions_eq isBlock.noCondition
    refine ⟨own, takes, _, ⟨condition, read, sameNames.symm ▸ fresh, rfl⟩, ?_⟩
    rw [← ends_closed_iff afresh] at later
    rw [← sameConditions, ← sameNames] at later
    exact later

theorem ends_block_conditions_iff {block : List (List Char)} (isBlock : IsTypeBlock block)
    (areBlocks : ∀ block ∈ blocks, IsTypeBlock block)
    (areConditions : ∀ text ∈ conditions, startsCondition text = true) :
    Ends draft (block ++ (conditions ++ blocks.flatten)) result ↔
      Ends draft (conditions ++ (block ++ blocks.flatten)) result := by
  induction conditions generalizing draft with
  | nil => rfl
  | cons text conditions induction =>
      have others := fun other member => areConditions other (List.mem_cons_of_mem text member)
      have afresh := startsAfresh_of_interleaves
        (interleaves_conditions_append blocks conditions) areBlocks others
      have first := areConditions text List.mem_cons_self
      rw [List.cons_append, ends_block_condition_iff isBlock first afresh, List.cons_append,
        ends_cons_iff, ends_cons_iff]
      simp only [induction others]

/-- Every interleaving leads where the conditions followed by the blocks lead. -/
theorem ends_iff_of_interleaves (interleaves : Interleaves blocks conditions merged)
    (areBlocks : ∀ block ∈ blocks, IsTypeBlock block)
    (areConditions : ∀ text ∈ conditions, startsCondition text = true) :
    Ends draft merged result ↔ Ends draft (conditions ++ blocks.flatten) result := by
  induction interleaves generalizing draft with
  | nil => rfl
  | block later induction =>
      rename_i block blocks conditions merged
      have others := fun other member => areBlocks other (List.mem_cons_of_mem block member)
      have first := areBlocks block List.mem_cons_self
      rw [List.flatten_cons, ← ends_block_conditions_iff first others areConditions,
        ends_append_iff, ends_append_iff]
      simp only [induction others areConditions]
  | condition later induction =>
      rename_i text blocks conditions merged
      have others := fun other member => areConditions other (List.mem_cons_of_mem text member)
      rw [List.cons_append, ends_cons_iff, ends_cons_iff]
      simp only [induction areBlocks others]

end Draft

/-- The texts of the statements of a text. -/
def statementTexts (text : List Char) : Except Error (List (List Char)) :=
  (scan text).map (·.map (·.text))

theorem read_eq_ok_iff_of_statementTexts {schemaVersion : String} {text : List Char}
    {header : List (List Char)} {model : Model}
    (texts : statementTexts text = .ok (header ++ merged)) :
    read schemaVersion text = .ok model ↔
      ∃ middle result, Draft.Takes (Draft.start schemaVersion) header middle ∧
        Draft.Ends middle merged result ∧ result.model = model := by
  obtain ⟨statements, scanned, whole⟩ := map_eq_ok_iff.mp texts
  simp only [read, scanned, map_eq_ok_iff, Draft.applyAll_eq_ok_iff, whole,
    Draft.takes_append_iff]
  constructor
  · rintro ⟨final, ⟨middle, earlier, later⟩, same⟩
    exact ⟨middle, final.closed, earlier, ⟨final, later, rfl⟩, same⟩
  · rintro ⟨middle, _, earlier, ⟨final, later, rfl⟩, same⟩
    exact ⟨final, ⟨middle, earlier, later⟩, same⟩

/-- Texts with the same blocks and the same conditions behind the same first statements are
read into the same model, or none of them is read, however blocks and conditions are
interleaved.  All conditions in front is one of the ways. -/
theorem read_interleaved (schemaVersion : String) {text text' : List Char}
    {header : List (List Char)} (areBlocks : ∀ block ∈ blocks, IsTypeBlock block)
    (areConditions : ∀ text ∈ conditions, startsCondition text = true)
    (interleaves : Interleaves blocks conditions merged)
    (interleaves' : Interleaves blocks conditions other)
    (texts : statementTexts text = .ok (header ++ merged))
    (texts' : statementTexts text' = .ok (header ++ other)) :
    Interleaves blocks conditions (conditions ++ blocks.flatten) ∧
      ((∃ model, read schemaVersion text = .ok model ∧ read schemaVersion text' = .ok model) ∨
        ∃ error error', read schemaVersion text = .error error ∧
          read schemaVersion text' = .error error') := by
  refine ⟨interleaves_conditions_append blocks conditions, ?_⟩
  have alike : ∀ model, read schemaVersion text = .ok model ↔
      read schemaVersion text' = .ok model := by
    intro model
    rw [read_eq_ok_iff_of_statementTexts texts, read_eq_ok_iff_of_statementTexts texts']
    simp only [Draft.ends_iff_of_interleaves interleaves areBlocks areConditions,
      Draft.ends_iff_of_interleaves interleaves' areBlocks areConditions]
  cases read : read schemaVersion text with
  | ok model => exact .inl ⟨model, rfl, (alike model).mp read⟩
  | error error =>
      cases read' : Dsl.read schemaVersion text' with
      | error error' => exact .inr ⟨error, error', rfl, rfl⟩
      | ok model =>
          rw [(alike model).mpr read'] at read
          cases read

/-- A text with its condition between two types. -/
def mixedText : List Char :=
  "model\ntype user\ncondition c(a: int) \x7b a > 1 \x7d\ntype doc\nrelations\ndefine v: [user]"
    |>.toList

/-- The same statements with the condition in front. -/
def sortedText : List Char :=
  "model\ncondition c(a: int) \x7b a > 1 \x7d\ntype user\ntype doc\nrelations\ndefine v: [user]"
    |>.toList

def mixedBlocks : List (List (List Char)) :=
  [["type user".toList], ["type doc".toList, "relations".toList, "define v: [user]".toList]]

def mixedConditions : List (List Char) :=
  ["condition c(a: int) \x7b a > 1 \x7d".toList]

/-- The statements of the first text behind `model`. -/
def mixedTexts : List (List Char) :=
  ["type user".toList, "condition c(a: int) \x7b a > 1 \x7d".toList,
    "type doc".toList, "relations".toList, "define v: [user]".toList]

theorem read_interleaved_mixed :
    ((∀ block ∈ mixedBlocks, IsTypeBlock block) ∧
      (∀ text ∈ mixedConditions, startsCondition text = true) ∧
        Interleaves mixedBlocks mixedConditions mixedTexts ∧
          statementTexts mixedText = .ok (["model".toList] ++ mixedTexts) ∧
            statementTexts sortedText =
              .ok (["model".toList] ++ (mixedConditions ++ mixedBlocks.flatten))) ∧
      ∃ model, read "1.1" mixedText = .ok model ∧ read "1.1" sortedText = .ok model := by
  have areBlocks : ∀ block ∈ mixedBlocks, IsTypeBlock block := by
    simp only [mixedBlocks, List.mem_cons, List.not_mem_nil, or_false, forall_eq_or_imp,
      forall_eq]
    exact ⟨.type (by decide), .define (.relations (.type (by decide))) (by decide)⟩
  have areConditions : ∀ text ∈ mixedConditions, startsCondition text = true := by decide
  have mixed : Interleaves mixedBlocks mixedConditions mixedTexts :=
    .block (.condition (.block .nil))
  have texts : statementTexts mixedText = .ok (["model".toList] ++ mixedTexts) := by
    decide +kernel
  have texts' : statementTexts sortedText =
      .ok (["model".toList] ++ (mixedConditions ++ mixedBlocks.flatten)) := by
    decide +kernel
  obtain ⟨sorted, alike⟩ := read_interleaved "1.1" areBlocks areConditions mixed
    (interleaves_conditions_append _ _) texts texts'
  refine ⟨⟨areBlocks, areConditions, mixed, texts, texts'⟩, ?_⟩
  rcases alike with same | ⟨error, error', failed, failed'⟩
  · exact same
  · have succeeds : (read "1.1" sortedText).isOk = true := by decide +kernel
    rw [failed'] at succeeds
    cases succeeds

end Rebac.Dsl
