import Rebac.Proofs.Dsl.Remark
import Rebac.Proofs.Dsl.Statement
import Rebac.Proofs.Relation.Unclosed

/-!
# Definitions of relations in DSL text

A `define` statement hands what stands behind its colon to the reader of relation
definitions, without a trailing comment.  So it defines what the reader says, however
the text is spaced, as long as no hash stands behind a blank.  A hash that does starts a
comment, and the list that the comment cuts off is never closed.
-/

namespace Rebac.Dsl

/-- The text that declares one type with one relation. -/
def definitionText (typeName relationName : String) (definition : List Char) : List Char :=
  "type ".toList ++ typeName.toList ++ '\n' :: "define ".toList ++ relationName.toList ++
    ": ".toList ++ definition

/-- The model with one type and one relation. -/
def definitionModel (schemaVersion typeName relationName : String) (body : Relation.Body) :
    Model :=
  { Model.ofSchema schemaVersion with
    types := [{
      name := typeName
      relations := [{
        name := relationName
        rule := body.rule
        userTypes := body.userTypes }] }] }

/-- The line of a definition. -/
def definitionLine (name : String) (definition : List Char) : List Char :=
  "define".toList ++ ' ' :: (name.toList ++ ':' :: definition)

theorem trimEnd_definitionLine (name : String) (definition : List Char) :
    Text.trimEnd (definitionLine name definition) =
      definitionLine name (Text.trimEnd definition) := by
  have layout : ∀ rest, definitionLine name rest =
      ("define".toList ++ ' ' :: name.toList) ++ ':' :: rest := by
    intro rest
    -- The equation of the definition is slow to prove, as it evaluates the keyword.
    delta definitionLine
    rw [List.append_assoc, List.cons_append]
  rw [layout, layout, Text.trimEnd_append (by decide)]

theorem trim_definitionLine (name : String) (definition : List Char) :
    Text.trim (definitionLine name definition) =
      Text.trimEnd (definitionLine name definition) := by
  have start : Text.trimStart (definitionLine name definition) =
      definitionLine name definition :=
    List.dropWhile_cons_of_neg (by decide)
  rw [Text.trim, start]

theorem isSolid_definitionLine (name : String) (definition : List Char) :
    IsSolid (definitionLine name definition) ∧
      startsCondition (Text.trim (definitionLine name definition)) = false := by
  rw [IsSolid, trim_definitionLine, trimEnd_definitionLine]
  exact ⟨⟨List.append_ne_nil_of_left_ne_nil (by decide) _, rfl⟩, rfl⟩

theorem dropTrailingComment_definitionLine {name : String} (valid : isName name = true)
    (definition : List Char) :
    dropTrailingComment (Text.trim (definitionLine name (' ' :: definition))) =
      definitionLine name (Text.trimEnd (' ' :: cutComment true definition)) := by
  obtain ⟨filled, characters, _⟩ := isName_iff.mp valid
  have blank : ∀ rest, cutComment false (' ' :: rest) = ' ' :: cutComment true rest :=
    fun rest => rfl
  have keyword : ∀ rest, cutComment true ("define".toList ++ rest) =
      "define".toList ++ cutComment false rest :=
    cutComment_word_append (by decide) (List.all_eq_true.mp rfl) true
  have colon : ∀ rest, cutComment false (':' :: rest) = ':' :: cutComment false rest :=
    cutComment_solid (by decide) (by decide) false
  have cut : cutComment true (definitionLine name (' ' :: definition)) =
      definitionLine name (' ' :: cutComment true definition) := by
    delta definitionLine
    rw [keyword, blank, cutComment_word_append filled characters, colon, blank]
  rw [trim_definitionLine, dropTrailingComment_trimEnd, dropTrailingComment, cut,
    trimEnd_definitionLine]

theorem lines_definitionText {typeName relationName : String}
    (typeValid : isName typeName = true) (relationValid : isName relationName = true)
    {definition : List Char} (inline : '\n' ∉ definition) :
    Text.lines (definitionText typeName relationName definition) =
      ["type".toList ++ ' ' :: typeName.toList,
        definitionLine relationName (' ' :: definition)] := by
  have noBreak := inline_keyword_name (by decide : "type".toList.all isNameCharacter = true)
    typeValid (by decide : isNameCharacter '\n' = false) (by decide)
  have noReturn := inline_keyword_name (by decide : "type".toList.all isNameCharacter = true)
    typeValid (by decide : isNameCharacter '\r' = false) (by decide)
  have relationNoBreak := inline_keyword_name
    (by decide : "define".toList.all isNameCharacter = true)
    relationValid (by decide : isNameCharacter '\n' = false) (by decide)
  have unbroken : '\n' ∉ definitionLine relationName (' ' :: definition) := by
    delta definitionLine
    simp only [List.mem_append, List.mem_cons, not_or] at relationNoBreak ⊢
    exact ⟨relationNoBreak.1, by decide, relationNoBreak.2.2, by decide, by decide, inline⟩
  have layout : definitionText typeName relationName definition =
      ("type".toList ++ ' ' :: typeName.toList) ++
        '\n' :: definitionLine relationName (' ' :: definition) := by
    delta definitionText definitionLine
    simp only [List.append_assoc, List.cons_append]
    rfl
  rw [layout, Text.lines_append_single noReturn noBreak, Text.lines_of_not_mem unbroken
    (List.append_ne_nil_of_left_ne_nil (by decide) _)]

theorem scan_definitionText {typeName relationName : String}
    (typeValid : isName typeName = true) (relationValid : isName relationName = true)
    {definition : List Char} (inline : '\n' ∉ definition) :
    scan (definitionText typeName relationName definition) =
      .ok [{ line := 1, text := "type".toList ++ ' ' :: typeName.toList },
        { line := 2
          text := definitionLine relationName
            (Text.trimEnd (' ' :: cutComment true definition)) }] := by
  obtain ⟨solid, noCondition⟩ := isSolid_definitionLine relationName (' ' :: definition)
  have typeTrimmed := trim_typeLine typeValid
  have typeSolid : IsSolid ("type".toList ++ ' ' :: typeName.toList) := by
    rw [IsSolid, typeTrimmed]
    exact ⟨List.append_ne_nil_of_left_ne_nil (by decide) _, rfl⟩
  have typeKept : dropTrailingComment ("type".toList ++ ' ' :: typeName.toList) =
      "type".toList ++ ' ' :: typeName.toList := by
    rw [dropTrailingComment, cutComment_typeLine typeValid]
    exact Text.trimEnd_of_isTight (Text.isTight_iff.mpr typeTrimmed)
  rw [scan, lines_definitionText typeValid relationValid inline,
    scanFrom_plain typeSolid (by rw [typeTrimmed]; rfl), scanFrom_plain solid noCondition,
    dropTrailingComment_definitionLine relationValid, typeTrimmed, typeKept]
  rfl

/-- A line that defines a relation means what the reader of definitions says, once its
trailing comment is gone. -/
theorem read_definitionText (schemaVersion : String) {typeName relationName : String}
    (typeValid : isName typeName = true) (relationValid : isName relationName = true)
    {definition : List Char} (inline : '\n' ∉ definition) :
    read schemaVersion (definitionText typeName relationName definition) =
      match Relation.Body.ofText (cutComment true definition) with
      | .error error => .error { line := 2, fault := .relation error }
      | .ok body => .ok (definitionModel schemaVersion typeName relationName body) := by
  have opened : (Draft.start schemaVersion).applyText ("type".toList ++ ' ' :: typeName.toList) =
      .ok ((Draft.start schemaVersion).withType typeName) :=
    applyText_type typeValid (by simp [Draft.start, Model.ofSchema])
  have current : ((Draft.start schemaVersion).withType typeName).current =
      some ([] : List TypeDefinition).length := rfl
  have defined := applyText_define relationValid current rfl
    (by simp [TypeDefinition.relationNames])
    (Text.trimEnd (' ' :: cutComment true definition))
  have trimmed : Text.trim (Text.trimEnd (' ' :: cutComment true definition)) =
      Text.trim (cutComment true definition) := by
    have blank : Text.AllBlank [' '] := Text.allBlank_singleton (by decide)
    have same := Text.trim_between blank Text.allBlank_nil (cutComment true definition)
    rw [List.append_nil, List.singleton_append] at same
    rw [Text.trim_trimEnd, same]
  rw [Relation.ofText_congr trimmed] at defined
  unfold read
  rw [scan_definitionText typeValid relationValid inline]
  delta definitionLine
  simp only [Draft.applyAll, Draft.apply, opened, defined]
  cases Relation.Body.ofText (cutComment true definition) with
  | error error => rfl
  | ok body => rfl

/-- A `define` line gives a relation what its definition says, unless a hash stands behind
a blank in it.  Then the list that the hash belongs to is cut off as it is read. -/
theorem read_definition_line (schemaVersion : String) {typeName relationName : String}
    {definition : List Char} {body : Relation.Body}
    (typeValid : isName typeName = true) (relationValid : isName relationName = true)
    (inline : '\n' ∉ definition) (defines : Relation.Body.ofText definition = .ok body) :
    (¬HasRemark definition →
      read schemaVersion (definitionText typeName relationName definition) =
        .ok (definitionModel schemaVersion typeName relationName body)) ∧
    (HasRemark definition →
      read schemaVersion (definitionText typeName relationName definition) =
        .error {
          line := 2
          fault := .relation {
            source := String.ofList (Text.trim (cutComment true definition))
            fault := .invalidList .unclosed } }) := by
  have whole := read_definitionText schemaVersion typeValid relationValid inline
  constructor
  · intro noRemark
    have start : definition.head? ≠ some '#' := by
      intro first
      obtain ⟨rest, rfl⟩ := List.head?_eq_some_iff.mp first
      have unclosed : Relation.Body.ofText [] = _ := Relation.ofText_unclosed defines
      cases unclosed
    rw [whole, cutComment_eq_self_iff.mpr ⟨fun starts => start starts.2, noRemark⟩, defines]
  · intro remark
    have cut : cutComment true definition ≠ definition :=
      fun same => (cutComment_eq_self_iff.mp same).2 remark
    obtain ⟨rest, split⟩ := exists_of_cutComment_ne cut
    rw [split] at defines
    rw [whole, Relation.ofText_unclosed defines]

theorem read_definition_line_spaced :
    read "1.1" (definitionText "doc" "viewer" "  a or[user:*,team#member]  or v from p".toList) =
        .ok (definitionModel "1.1" "doc" "viewer"
          { rule := .union [.direct, .computed "a", .through "p" "v"]
            userTypes := [{ UserType.plain "user" with wildcard := true },
              { UserType.plain "team" with relation := some "member" }] }) ∧
      read "1.1" (definitionText "doc" "viewer" "a or [team #member]".toList) =
        .error {
          line := 2
          fault := .relation { source := "a or [team", fault := .invalidList .unclosed } } := by
  have typeValid : isName "doc" = true := by decide
  have relationValid : isName "viewer" = true := by decide
  have even := read_definition_line "1.1" typeValid relationValid (by decide)
    (by decide +kernel : Relation.Body.ofText "  a or[user:*,team#member]  or v from p".toList =
      .ok
        { rule := .union [.direct, .computed "a", .through "p" "v"]
          userTypes := [{ UserType.plain "user" with wildcard := true },
            { UserType.plain "team" with relation := some "member" }] })
  have cut := read_definition_line "1.1" typeValid relationValid (by decide)
    (by decide +kernel : Relation.Body.ofText "a or [team #member]".toList = .ok
      { rule := .union [.direct, .computed "a"]
        userTypes := [{ UserType.plain "team" with relation := some "member" }] })
  exact ⟨even.1 (by decide +kernel), cut.2 (by decide +kernel)⟩

/-- A list with gaps around a hash is read by itself, but not on a line. -/
theorem read_definition_line_ne_ofText :
    Relation.Body.ofText "[group # member]".toList =
        .ok { rule := .direct
              userTypes := [{ UserType.plain "group" with relation := some "member" }] } ∧
      '\n' ∉ "[group # member]".toList ∧ isName "t" = true ∧ isName "r" = true ∧
      ∀ model, read "1.1" (definitionText "t" "r" "[group # member]".toList) ≠ .ok model := by
  have failed : read "1.1" (definitionText "t" "r" "[group # member]".toList) =
      .error {
        line := 2
        fault := .relation { source := "[group", fault := .invalidList .unclosed } } := by
    decide +kernel
  refine ⟨by decide +kernel, by decide, by decide, by decide, ?_⟩
  rw [failed]
  simp

end Rebac.Dsl
