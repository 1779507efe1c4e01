import Rebac.Proofs.Dsl.Draft
import Rebac.Proofs.Relation.Printed

/-!
# Reading written statements

The statements of a written model other than its conditions stand on one line
each.  No trailing comment is cut off any of them, and each has its effect on
the draft.
-/

namespace Rebac

namespace Dsl

theorem cutComment_solid {character : Char} (noHash : character ≠ '#')
    (solid : Text.isAsciiBlank character = false) (boundary : Bool) (rest : List Char) :
    cutComment boundary (character :: rest) = character :: cutComment false rest := by
  simp [cutComment, noHash, solid]

theorem cutComment_word_append {word : List Char} (filled : word ≠ [])
    (characters : ∀ character ∈ word, isNameCharacter character = true)
    (boundary : Bool) (rest : List Char) :
    cutComment boundary (word ++ rest) = word ++ cutComment false rest := by
  induction word generalizing boundary with
  | nil => exact absurd rfl filled
  | cons first word induction =>
      have name := characters first (by simp)
      have noHash : first ≠ '#' := by
        rintro rfl
        exact absurd name (by decide)
      have solid : Text.isAsciiBlank first = false := by
        cases blank : Text.isAsciiBlank first with
        | false => rfl
        | true =>
            have solid := not_isBlank_of_isNameCharacter name
            rw [Text.isBlank_of_isAsciiBlank blank] at solid
            cases solid
      rw [List.cons_append, cutComment_solid noHash solid]
      cases word with
      | nil => rfl
      | cons second word =>
          rw [induction (by simp) (fun other member => characters other (by simp [member]))]
          rfl

/-- Nothing in a spelled text looks like a trailing comment. -/
theorem cutComment_of_spelling {text : List Char} {tokens : List Relation.Token}
    (spelling : Relation.Spelling text tokens) (boundary : Bool) :
    cutComment boundary text = text := by
  induction spelling generalizing boundary with
  | nil => rfl
  | name valid _ _ induction =>
      obtain ⟨filled, characters, _⟩ := isName_iff.mp valid
      rw [cutComment_word_append filled characters, induction]
  | qualifiedName valid _ induction =>
      obtain ⟨filled, characters, _⟩ := isName_iff.mp valid
      rw [cutComment_word_append filled characters, cutComment, induction]
      rfl
  | keyword keyword _ _ induction =>
      obtain ⟨filled, characters⟩ := keyword.spelling_word
      rw [cutComment_word_append filled characters, induction]
  | mark _ noHash _ induction =>
      rw [cutComment, induction, if_neg (by simp [noHash])]
  | blank _ induction =>
      rw [cutComment, induction, if_neg (by simp)]

theorem cutComment_of_solid {text : List Char}
    (solid : ∀ character ∈ text, Text.isBlank character = false) :
    cutComment false text = text := by
  induction text with
  | nil => rfl
  | cons character text induction =>
      have ascii : Text.isAsciiBlank character = false := by
        cases blank : Text.isAsciiBlank character with
        | false => rfl
        | true =>
            have headSolid := solid character (by simp)
            rw [Text.isBlank_of_isAsciiBlank blank] at headSolid
            cases headSolid
      have tail := induction fun other member => solid other (by simp [member])
      simp [cutComment, ascii, tail]

variable {number : Nat} {line text : List Char} {lines : List (List Char)}
  {draft next final : Draft}

/-- A line whose statement has nothing to cut off, and has an effect. -/
theorem reads_effect (trimmed : Text.trim line = text) (filled : text ≠ [])
    (noComment : startsComment text = false) (noCondition : startsCondition text = false)
    (uncut : cutComment true text = text) (applied : draft.applyText text = .ok next) :
    Reads number none (line :: lines) draft final ↔
      Reads (number + 1) none lines next final := by
  have tight : Text.IsTight text := by
    rw [← trimmed]
    exact Text.isTight_trim line
  have kept : dropTrailingComment text = text := by
    rw [dropTrailingComment, uncut, Text.trimEnd_of_isTight tight]
  rw [reads_statement (by rwa [trimmed]) (by rwa [trimmed]) (by rwa [trimmed]), trimmed,
    kept, applied]
  constructor
  · rintro ⟨_, same, later⟩
    rwa [Except.ok.inj same]
  · intro later
    exact ⟨next, rfl, later⟩

theorem applyText_model : draft.applyText "model".toList = .ok draft := rfl

theorem argument?_append (keyword : List Char) {argument : List Char}
    (tight : Text.IsTight argument) (filled : argument ≠ []) :
    Draft.argument? keyword (keyword ++ ' ' :: argument) = some argument := by
  have trimmed : Text.trim (' ' :: argument) = argument :=
    Text.trim_blank_cons (by decide) tight
  have blank : Text.isBlank ' ' = true := by decide
  simp [Draft.argument?, afterKeyword?, Text.isPrefixOf?_append, trimmed, filled, blank]

theorem applyText_schema {version : String} (valid : IsSchemaVersion version) :
    draft.applyText ("schema".toList ++ ' ' :: version.toList) =
      .ok (draft.withSchema version) := by
  have argument := argument?_append "schema".toList
    (Text.isTight_of_forall valid.2) valid.1
  have solid : version.toList.any Text.isBlank = false := by
    rw [List.any_eq_false]
    intro character member
    simp [valid.2 character member]
  have noCondition : startsCondition ("schema".toList ++ ' ' :: version.toList) = false :=
    rfl
  have noModel : "schema".toList ++ ' ' :: version.toList ≠ "model".toList := by simp
  rw [Draft.applyText, noCondition, if_neg Bool.false_ne_true, if_neg noModel, argument]
  simp [Draft.setSchema, solid, Draft.withSchema]

theorem applyText_type {name : String} (valid : isName name = true)
    (fresh : name ∉ draft.model.types.map (·.name)) :
    draft.applyText ("type".toList ++ ' ' :: name.toList) = .ok (draft.withType name) := by
  obtain ⟨tight, filled⟩ := Rule.isTight_name valid
  have argument := argument?_append "type".toList tight filled
  have noCondition : startsCondition ("type".toList ++ ' ' :: name.toList) = false := rfl
  have noModel : "type".toList ++ ' ' :: name.toList ≠ "model".toList := by simp
  have noSchema : Draft.argument? "schema".toList ("type".toList ++ ' ' :: name.toList) =
      none := rfl
  have absent : draft.model.hasType name = false := Model.hasType_eq_false_iff.mpr fresh
  rw [Draft.applyText, noCondition, if_neg Bool.false_ne_true, if_neg noModel, noSchema,
    argument]
  simp [Draft.openType, valid, absent, Draft.withType]

theorem applyText_relations (isOpen : draft.current.isSome = true) :
    draft.applyText "relations".toList = .ok draft := by
  have noCondition : startsCondition "relations".toList = false := rfl
  have noModel : "relations".toList ≠ "model".toList := by decide
  have noSchema : Draft.argument? "schema".toList "relations".toList = none := rfl
  have noType : Draft.argument? "type".toList "relations".toList = none := rfl
  rw [Draft.applyText, noCondition, if_neg Bool.false_ne_true, if_neg noModel, noSchema,
    noType]
  simp [isOpen]

/-- A definition adds to the last type what stands behind its colon. -/
theorem applyText_define {front : List TypeDefinition} {type : TypeDefinition}
    {name : String} (valid : isName name = true) (current : draft.current = some front.length)
    (split : draft.model.types = front ++ [type]) (fresh : name ∉ type.relationNames)
    (definition : List Char) :
    draft.applyText ("define".toList ++ ' ' :: (name.toList ++ ':' :: definition)) =
      match Relation.Body.ofText definition with
      | .error error => .error (.relation error)
      | .ok body =>
          .ok (draft.addRelation front.length
            { name, rule := body.rule, userTypes := body.userTypes }) := by
  have noColon : ':' ∉ ' ' :: name.toList := by
    intro member
    rcases List.mem_cons.mp member with blank | inName
    · cases blank
    · exact absurd ((isName_iff.mp valid).2.1 ':' inName) (by decide)
  have cut : Text.splitOnce ':' (' ' :: (name.toList ++ ':' :: definition)) =
      some (' ' :: name.toList, definition) :=
    Text.splitOnce_append noColon definition
  have named : Text.trim (' ' :: name.toList) = name.toList :=
    Text.trim_blank_cons (by decide) (Rule.isTight_name valid).1
  have absent : type.relation? name = none :=
    TypeDefinition.relation?_eq_none_iff.mpr fresh
  have found : draft.model.types[front.length]? = some type := by simp [split]
  generalize text : ' ' :: (name.toList ++ ':' :: definition) = rest at cut ⊢
  have noCondition : startsCondition ("define".toList ++ rest) = false := rfl
  have noModel : "define".toList ++ rest ≠ "model".toList := by simp
  have noSchema : Draft.argument? "schema".toList ("define".toList ++ rest) = none := rfl
  have noType : Draft.argument? "type".toList ("define".toList ++ rest) = none := rfl
  have noRelations : "define".toList ++ rest ≠ "relations".toList := by simp
  have keyword : afterKeyword? "define".toList ("define".toList ++ rest) = some rest := by
    rw [afterKeyword?, Text.isPrefixOf?_append, ← text]
    rfl
  rw [Draft.applyText, noCondition, if_neg Bool.false_ne_true, if_neg noModel, noSchema,
    noType]
  simp only [if_neg noRelations, keyword, Draft.define, current, found, cut, named,
    String.ofList_toList, valid, if_true, absent]
  rfl

/-- A relation is defined by its written form. -/
theorem applyText_written {front : List TypeDefinition} {type : TypeDefinition}
    {relation : Relation} (wellFormed : relation.IsWellFormed)
    (current : draft.current = some front.length)
    (split : draft.model.types = front ++ [type])
    (fresh : relation.name ∉ type.relationNames) :
    draft.applyText ("define".toList ++ ' ' :: (relation.name.toList ++ ':' :: ' ' ::
        relation.rule.toText relation.userTypes)) =
      .ok (draft.addRelation front.length relation) := by
  obtain ⟨name, rule, userTypes⟩ := relation
  obtain ⟨valid, canonical, spellable⟩ := wellFormed
  have filled := Rule.isFilled_of_isCanonical canonical
  obtain ⟨bodyTight, _⟩ := Rule.isTight_toText filled spellable.named userTypes
  have body := Relation.Body.ofText_toText filled spellable
    (Text.trim_blank_cons (by decide : Text.isBlank ' ' = true) bodyTight)
  rw [Rule.unionOf_leaves (Rule.isJoined_of_isCanonical canonical)] at body
  rw [applyText_define valid current split fresh, body]

end Dsl

/-- The statement that defines a relation. -/
def Relation.statementText (relation : Relation) : List Char :=
  "define".toList ++ ' ' :: (relation.name.toList ++ ':' :: ' ' ::
    relation.rule.toText relation.userTypes)

def Relation.writtenLine (relation : Relation) : List Char :=
  "    ".toList ++ relation.statementText

/-- The lines of a written type, behind an empty one. -/
def TypeDefinition.writtenLines (type : TypeDefinition) : List (List Char) :=
  [] :: ("type".toList ++ ' ' :: type.name.toList) ::
    if type.relations.isEmpty then []
    else "  relations".toList :: type.relations.map Relation.writtenLine

theorem Relation.toText_eq_writtenLine (relation : Relation) :
    relation.toText = relation.writtenLine ++ ['\n'] := by
  unfold toText writtenLine statementText
  simp only [List.append_assoc, List.cons_append]
  rfl

theorem Relation.statementText_ne_nil (relation : Relation) :
    relation.statementText ≠ [] := by
  unfold statementText
  exact List.append_ne_nil_of_left_ne_nil (by decide) _

theorem Relation.spelling_statementText {relation : Relation}
    (wellFormed : relation.IsWellFormed) :
    ∃ tokens, Spelling relation.statementText tokens := by
  have filled := Rule.isFilled_of_isCanonical wellFormed.canonical
  have body := Rule.spelling_toText filled wellFormed.spellable
  have defined := Spelling.mark (rfl : Token.ofMark? ':' = some .colon) (by decide)
    body.blank
  have named := Spelling.name wellFormed.name (endsWord_cons (by decide) _) defined
  exact ⟨_, Spelling.name (by decide : isName "define" = true)
    (endsWord_cons (by decide) _) named.blank⟩

theorem Relation.trim_writtenLine {relation : Relation}
    (wellFormed : relation.IsWellFormed) :
    Text.trim relation.writtenLine = relation.statementText := by
  have filled := Rule.isFilled_of_isCanonical wellFormed.canonical
  obtain ⟨bodyTight, bodyFilled⟩ :=
    Rule.isTight_toText filled wellFormed.spellable.named relation.userTypes
  obtain ⟨keywordTight, keywordFilled⟩ :=
    Rule.isTight_name (by decide : isName "define" = true)
  have tight : Text.IsTight relation.statementText := by
    have shape : relation.statementText = "define".toList ++
        (' ' :: (relation.name.toList ++ ": ".toList)) ++
          relation.rule.toText relation.userTypes := by
      unfold statementText
      simp only [List.append_assoc, List.cons_append]
      rfl
    rw [shape]
    exact Text.isTight_append keywordTight bodyTight keywordFilled bodyFilled _
  have blank : Text.AllBlank "    ".toList := by decide
  simpa [writtenLine] using Text.trim_surrounded blank tight Text.allBlank_nil

theorem Relation.inline_writtenLine {relation : Relation}
    (wellFormed : relation.IsWellFormed) {character : Char}
    (member : character ∈ relation.writtenLine) : character ≠ '\n' ∧ character ≠ '\r' := by
  have blank : ∀ other ∈ "    ".toList, other ≠ '\n' ∧ other ≠ '\r' := by simp
  obtain ⟨tokens, spelling⟩ := spelling_statementText wellFormed
  rcases List.mem_append.mp member with inBlanks | inText
  · exact blank character inBlanks
  · exact spelling.inline inText

namespace Dsl

variable {number : Nat} {lines : List (List Char)} {draft final : Draft}

theorem lines_relations {relations : List Relation}
    (wellFormed : ∀ relation ∈ relations, relation.IsWellFormed) (rest : List Char) :
    Text.lines (relations.flatMap Relation.toText ++ rest) =
      relations.map Relation.writtenLine ++ Text.lines rest := by
  induction relations with
  | nil => rfl
  | cons relation relations induction =>
      have head := wellFormed relation (by simp)
      have tail := induction fun other member => wellFormed other (by simp [member])
      have noBreak : '\n' ∉ relation.writtenLine := fun member =>
        (Relation.inline_writtenLine head member).1 rfl
      have noReturn : '\r' ∉ relation.writtenLine := fun member =>
        (Relation.inline_writtenLine head member).2 rfl
      rw [List.flatMap_cons, Relation.toText_eq_writtenLine, List.append_assoc,
        List.append_assoc, List.singleton_append,
        Text.lines_append_single noReturn noBreak, tail, List.map_cons, List.cons_append]

theorem inline_keyword_name {keyword : List Char} {name : String}
    (word : keyword.all isNameCharacter = true)
    (valid : isName name = true) {mark : Char} (outside : isNameCharacter mark = false)
    (noBlank : mark ≠ ' ') : mark ∉ keyword ++ ' ' :: name.toList := by
  have absent : ∀ characters : List Char,
      (∀ character ∈ characters, isNameCharacter character = true) → mark ∉ characters := by
    intro characters names member
    rw [names mark member] at outside
    cases outside
  have inName := absent name.toList (isName_iff.mp valid).2.1
  simp [absent keyword (List.all_eq_true.mp word), inName, noBlank]

theorem lines_type {type : TypeDefinition} (wellFormed : type.IsWellFormed)
    (rest : List Char) :
    Text.lines ('\n' :: (type.toText ++ rest)) = type.writtenLines ++ Text.lines rest := by
  have noBreak := inline_keyword_name
    (by decide : "type".toList.all isNameCharacter = true)
    wellFormed.name (by decide : isNameCharacter '\n' = false) (by decide)
  have noReturn := inline_keyword_name
    (by decide : "type".toList.all isNameCharacter = true)
    wellFormed.name (by decide : isNameCharacter '\r' = false) (by decide)
  have layout : ∀ relations : List Char, '\n' :: ("type ".toList ++ type.name.toList ++
      '\n' :: relations ++ rest) =
        [] ++ '\n' :: (("type".toList ++ ' ' :: type.name.toList) ++
          '\n' :: (relations ++ rest)) := by
    intro relations
    simp only [List.append_assoc, List.cons_append]
    rfl
  unfold TypeDefinition.toText TypeDefinition.writtenLines
  rw [layout, Text.lines_append_single (by simp) (by simp),
    Text.lines_append_single noReturn noBreak]
  cases empty : type.relations.isEmpty with
  | true => rfl
  | false =>
      have heading : "  relations\n".toList ++ type.relations.flatMap Relation.toText ++
          rest = "  relations".toList ++
            '\n' :: (type.relations.flatMap Relation.toText ++ rest) := by
        simp only [List.append_assoc]
        rfl
      rw [if_neg Bool.false_ne_true, if_neg Bool.false_ne_true, heading,
        Text.lines_append_single (by decide) (by decide),
        lines_relations wellFormed.relations]
      simp only [List.cons_append]

/-- A draft with one more type, whose relations are complete. -/
def Draft.withTypeDefinition (draft : Draft) (type : TypeDefinition) : Draft :=
  { draft with
    model := { draft.model with types := draft.model.types ++ [type] }
    current := some draft.model.types.length }

theorem Draft.addRelation_withTypeDefinition (draft : Draft) (type : TypeDefinition)
    (relation : Relation) :
    (draft.withTypeDefinition type).addRelation draft.model.types.length relation =
      draft.withTypeDefinition (type.withRelation relation) := by
  have types := Draft.types_addRelation
    (rfl : (draft.withTypeDefinition type).model.types = draft.model.types ++ [type])
    relation
  simp only [addRelation, withTypeDefinition] at types ⊢
  rw [types]

theorem reads_relations {type : TypeDefinition} {relations : List Relation}
    (wellFormed : ∀ relation ∈ relations, relation.IsWellFormed)
    (distinct : (type.relationNames ++ relations.map (·.name)).Nodup) :
    Reads number none (relations.map Relation.writtenLine ++ lines)
        (draft.withTypeDefinition type) final ↔
      Reads (number + relations.length) none lines
        (draft.withTypeDefinition
          { type with relations := type.relations ++ relations }) final := by
  induction relations generalizing number type with
  | nil => simp
  | cons relation relations induction =>
      have head := wellFormed relation (by simp)
      obtain ⟨tokens, spelling⟩ := Relation.spelling_statementText head
      have fresh : relation.name ∉ type.relationNames := by
        intro member
        exact (List.nodup_append.mp distinct).2.2 _ member _ (by simp) rfl
      have applied := applyText_written head
        (rfl : (draft.withTypeDefinition type).current = some draft.model.types.length)
        rfl fresh
      have later := @induction (number + 1) (type.withRelation relation)
        (fun other member => wellFormed other (by simp [member]))
        (by simpa [TypeDefinition.relationNames, TypeDefinition.withRelation] using distinct)
      have count : number + 1 + relations.length =
          number + (relation :: relations).length := by
        rw [List.length_cons]
        omega
      rw [List.map_cons, List.cons_append,
        reads_effect (Relation.trim_writtenLine head) (Relation.statementText_ne_nil relation)
          rfl rfl (cutComment_of_spelling spelling true) applied,
        Draft.addRelation_withTypeDefinition, later, count]
      simp [TypeDefinition.withRelation]

theorem trim_typeLine {name : String} (valid : isName name = true) :
    Text.trim ("type".toList ++ ' ' :: name.toList) = "type".toList ++ ' ' :: name.toList := by
  obtain ⟨nameTight, nameFilled⟩ := Rule.isTight_name valid
  obtain ⟨keywordTight, keywordFilled⟩ :=
    Rule.isTight_name (by decide : isName "type" = true)
  apply Text.trim_of_isTight
  simpa using Text.isTight_append keywordTight nameTight keywordFilled nameFilled [' ']

theorem cutComment_typeLine {name : String} (valid : isName name = true) :
    cutComment true ("type".toList ++ ' ' :: name.toList) =
      "type".toList ++ ' ' :: name.toList := by
  have named := Relation.Spelling.name valid Relation.endsWord_nil .nil
  rw [List.append_nil] at named
  exact cutComment_of_spelling (Relation.Spelling.name (by decide : isName "type" = true)
    (Relation.endsWord_cons (by decide) _) named.blank) true

theorem reads_writtenType {type : TypeDefinition} (wellFormed : type.IsWellFormed)
    (fresh : type.name ∉ draft.model.types.map (·.name)) :
    Reads number none (type.writtenLines ++ lines) draft final ↔
      Reads (number + type.writtenLines.length) none lines
        (draft.withTypeDefinition type) final := by
  unfold TypeDefinition.writtenLines
  rw [List.cons_append, List.cons_append, reads_blank rfl,
    reads_effect (trim_typeLine wellFormed.name) (by simp) rfl rfl
      (cutComment_typeLine wellFormed.name) (applyText_type wellFormed.name fresh)]
  obtain ⟨name, relations⟩ := type
  cases relations with
  | nil => exact Iff.rfl
  | cons relation relations =>
      have heading : Text.trim "  relations".toList = "relations".toList := by decide
      have isOpen : (draft.withType name).current.isSome = true := rfl
      have spelled : cutComment true "relations".toList = "relations".toList := by decide
      have later := @reads_relations (number + 1 + 1 + 1) lines draft final
        { name, relations := [] } (relation :: relations) wellFormed.relations
        wellFormed.relationNames
      have shape : (if (relation :: relations).isEmpty then []
          else "  relations".toList :: (relation :: relations).map Relation.writtenLine) =
            "  relations".toList :: (relation :: relations).map Relation.writtenLine := rfl
      have count : number + ([] :: ("type".toList ++ ' ' :: name.toList) ::
          "  relations".toList ::
            (relation :: relations).map Relation.writtenLine).length =
          number + 1 + 1 + 1 + (relation :: relations).length := by
        simp only [List.length_cons, List.length_map]
        omega
      dsimp only
      rw [shape, count, List.cons_append,
        reads_effect heading (by simp) rfl rfl spelled (applyText_relations isOpen)]
      exact later

end Dsl

end Rebac
