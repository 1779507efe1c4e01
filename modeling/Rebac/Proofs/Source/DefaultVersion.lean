import Rebac.Proofs.Source.Formats
import Rebac.Proofs.Validity.Complete

/-!
# The schema version of the settings

A text that states no schema version gets that of the settings, and nothing else in its
model depends on it.  Settings are accepted with every version that is not blank, while a
version with a blank in it is none that a model can have.  With such settings no text
compiles that leaves the version to them.
-/

namespace Rebac

namespace Dsl

/-- Whether a statement of a text states a schema version. -/
def statesSchema (text : List Char) : Bool :=
  match scan text with
  | .error _ => false
  | .ok statements => statements.any fun statement =>
      (Draft.argument? "schema".toList statement.text).isSome

namespace Draft

variable {draft : Draft} {text : List Char}

theorem openType_withSchema (version name : String) :
    (draft.withSchema version).openType name =
      (draft.openType name).map (·.withSchema version) := by
  have sameTypes : (draft.withSchema version).model.hasType name =
      draft.model.hasType name := rfl
  rw [openType, openType, sameTypes]
  split
  · split <;> rfl
  · rfl

theorem addCondition_withSchema (version : String) (text : List Char) :
    (draft.withSchema version).addCondition text =
      (draft.addCondition text).map (·.withSchema version) := by
  have sameNames : (draft.withSchema version).conditionNames = draft.conditionNames := rfl
  rw [addCondition, addCondition, sameNames]
  split
  · rfl
  · split <;> rfl

theorem define_withSchema (version : String) (definition : List Char) :
    (draft.withSchema version).define definition =
      (draft.define definition).map (·.withSchema version) := by
  have sameCurrent : (draft.withSchema version).current = draft.current := rfl
  have sameTypes : (draft.withSchema version).model.types = draft.model.types := rfl
  rw [define, define, sameCurrent]
  cases draft.current with
  | none => rfl
  | some position =>
      simp only [sameTypes]
      cases draft.model.types[position]? with
      | none => rfl
      | some type =>
          cases Text.splitOnce ':' definition with
          | none => rfl
          | some parts =>
              simp only
              split
              · split
                · rfl
                · split <;> rfl
              · rfl

/-- A statement that states no version has the same effect whatever the version is, and
keeps it. -/
theorem applyText_withSchema (unstated : argument? "schema".toList text = none)
    (version : String) :
    (draft.withSchema version).applyText text =
      (draft.applyText text).map (·.withSchema version) := by
  have sameCurrent : (draft.withSchema version).current = draft.current := rfl
  simp only [applyText, unstated, sameCurrent]
  split
  · exact addCondition_withSchema version text
  · split
    · rfl
    · split
      · exact openType_withSchema version _
      · split
        · split <;> rfl
        · split
          · exact define_withSchema version _
          · rfl

theorem applyAll_withSchema {statements : List Statement}
    (unstated : ∀ statement ∈ statements,
      argument? "schema".toList statement.text = none) (version : String) :
    (draft.withSchema version).applyAll statements =
      (draft.applyAll statements).map (·.withSchema version) := by
  induction statements generalizing draft with
  | nil => rfl
  | cons statement statements induction =>
      have first : (draft.withSchema version).applyText statement.text =
          (draft.applyText statement.text).map (·.withSchema version) :=
        applyText_withSchema (unstated statement List.mem_cons_self) version
      have others := fun other member =>
        unstated other (List.mem_cons_of_mem statement member)
      rw [applyAll, applyAll, apply, apply, first]
      cases draft.applyText statement.text with
      | error fault => rfl
      | ok next => exact induction others

end Draft

variable {text : List Char}

/-- Reading a text that states no version only hands the version on. -/
theorem read_of_statesSchema (unstated : statesSchema text = false)
    (initial version : String) :
    read version text =
      (read initial text).map fun model => { model with schemaVersion := version } := by
  rw [statesSchema] at unstated
  rw [read, read]
  cases scanned : scan text with
  | error failure => rfl
  | ok statements =>
      rw [scanned] at unstated
      have noStatement : ∀ statement ∈ statements,
          Draft.argument? "schema".toList statement.text = none := by
        simpa using unstated
      have same : Draft.start version = (Draft.start initial).withSchema version := rfl
      simp only
      rw [same, Draft.applyAll_withSchema noStatement]
      cases (Draft.start initial).applyAll statements with
      | error failure => rfl
      | ok final => rfl

theorem schemaVersion_of_read {version : String} {model : Model}
    (unstated : statesSchema text = false) (parsed : read version text = .ok model) :
    model.schemaVersion = version := by
  have same := read_of_statesSchema unstated version version
  rw [parsed] at same
  exact congrArg Model.schemaVersion (Except.ok.inj same)

end Dsl

theorem Model.mem_violations_invalidSchemaVersion_iff {model : Model} {version : String} :
    .invalidSchemaVersion version ∈ model.violations ↔
      model.types ≠ [] ∧ version = model.schemaVersion ∧ ¬ IsSchemaVersion version := by
  by_cases filled : model.types = []
  · simp [violations, filled]
  · rw [mem_violations_iff_breaks filled (by simp)]
    constructor
    · intro breaks
      cases breaks with
      | schemaVersion invalid => exact ⟨filled, rfl, invalid⟩
      | userType _ _ _ breaks => cases breaks
      | node _ _ _ breaks => cases breaks
    · rintro ⟨_, rfl, invalid⟩
      exact .schemaVersion invalid

theorem Settings.defaultSchemaVersion_ne_nil {settings : Settings}
    (accepted : settings.check = .ok ()) :
    settings.compiler.defaultSchemaVersion.toList ≠ [] := by
  intro empty
  have blank : isBlankText settings.compiler.defaultSchemaVersion = true := by
    rw [isBlankText, empty]
    rfl
  rw [Settings.check, if_pos blank] at accepted
  split at accepted
  · cases accepted
  · cases accepted

theorem not_isSchemaVersion_iff {version : String} (filled : version.toList ≠ []) :
    ¬ IsSchemaVersion version ↔
      ∃ character ∈ version.toList, Text.isBlank character = true := by
  simp [IsSchemaVersion, filled]

/-- The standard settings but for a version of two words. -/
def Settings.betaVersion : Settings :=
  { Settings.standard with
    compiler := { CompilerSettings.standard with defaultSchemaVersion := "1.1 beta" } }

namespace Source

variable {settings : CompilerSettings} {text : List Char}

theorem read_ne_invalid (violations : List Violation) :
    read settings text ≠ .error (.invalid violations) := by
  intro refused
  rw [read] at refused
  split at refused
  · cases refused
  · split at refused
    · cases refused
    · split at refused
      · cases refused
      · cases refused

theorem compile_eq_invalid_iff {violations : List Violation} :
    compile settings text = .error (.invalid violations) ↔
      ∃ model format, read settings text = .ok (model, format) ∧
        model.violations = violations ∧ violations ≠ [] := by
  constructor
  · intro refused
    rw [compile] at refused
    split at refused
    · rename_i error failed
      cases refused
      exact absurd failed (read_ne_invalid violations)
    · rename_i model format parsed
      split at refused
      · cases refused
      · rename_i found
        cases refused
        exact ⟨model, format, parsed, rfl, found⟩
  · rintro ⟨model, format, parsed, rfl, found⟩
    rw [compile, parsed]
    simp only

theorem read_of_no_document (noDocument : ∀ model, Document.read text ≠ .ok model)
    {model : Model} {format : Format} (parsed : read settings text = .ok (model, format)) :
    format = .dsl ∧ Dsl.read settings.defaultSchemaVersion text = .ok model := by
  rw [read] at parsed
  split at parsed
  · cases parsed
  · split at parsed
    · rename_i document found
      exact absurd found (noDocument document)
    · split at parsed
      · rename_i found
        cases parsed
        exact ⟨rfl, found⟩
      · cases parsed

/-- A text that leaves the version to accepted settings is refused for the version exactly
if a blank stands in it and the text is read as a model with types. -/
theorem compile_invalidSchemaVersion_iff {settings : Settings} {text : List Char}
    (accepted : settings.check = .ok ()) (unstated : Dsl.statesSchema text = false)
    (noDocument : ∀ model, Document.read text ≠ .ok model) (version : String) :
    (∃ violations, compile settings.compiler text = .error (.invalid violations) ∧
        .invalidSchemaVersion version ∈ violations) ↔
      version = settings.compiler.defaultSchemaVersion ∧
        (∃ character ∈ version.toList, Text.isBlank character = true) ∧
          ∃ model, read settings.compiler text = .ok (model, .dsl) ∧ model.types ≠ [] := by
  have unusable := not_isSchemaVersion_iff
    (Settings.defaultSchemaVersion_ne_nil accepted)
  constructor
  · rintro ⟨violations, refused, reported⟩
    obtain ⟨model, format, parsed, rfl, _⟩ := compile_eq_invalid_iff.mp refused
    obtain ⟨filled, stated, invalid⟩ :=
      Model.mem_violations_invalidSchemaVersion_iff.mp reported
    obtain ⟨rfl, found⟩ := read_of_no_document noDocument parsed
    rw [Dsl.schemaVersion_of_read unstated found] at stated
    subst stated
    exact ⟨rfl, unusable.mp invalid, model, parsed, filled⟩
  · rintro ⟨rfl, spaced, model, parsed, filled⟩
    have found := (read_of_no_document noDocument parsed).2
    have stated := Dsl.schemaVersion_of_read unstated found
    have reported : .invalidSchemaVersion settings.compiler.defaultSchemaVersion ∈
        model.violations :=
      Model.mem_violations_invalidSchemaVersion_iff.mpr
        ⟨filled, stated.symm, unusable.mpr spaced⟩
    have refused : compile settings.compiler text = .error (.invalid model.violations) :=
      compile_eq_invalid_iff.mpr
        ⟨model, .dsl, parsed, rfl, List.ne_nil_of_mem reported⟩
    exact ⟨model.violations, refused, reported⟩

theorem compile_invalidSchemaVersion_twoTypes :
    Settings.betaVersion.check = .ok () ∧
      Dsl.statesSchema "type user\ntype doc\n".toList = false ∧
        (∀ model, Document.read "type user\ntype doc\n".toList ≠ .ok model) ∧
          ∃ violations,
            compile Settings.betaVersion.compiler "type user\ntype doc\n".toList =
                .error (.invalid violations) ∧
              .invalidSchemaVersion "1.1 beta" ∈ violations := by
  have accepted : Settings.betaVersion.check = .ok () := by decide +kernel
  have unstated : Dsl.statesSchema "type user\ntype doc\n".toList = false := by
    decide +kernel
  have noDocument : ∀ model,
      Document.read "type user\ntype doc\n".toList ≠ .ok model := by
    intro model document
    obtain ⟨inner, start⟩ := Document.skipGap_of_read document
    cases start
  have parsed : read Settings.betaVersion.compiler "type user\ntype doc\n".toList =
      .ok ({ schemaVersion := "1.1 beta"
             types := [⟨"user", []⟩, ⟨"doc", []⟩]
             conditions := [] }, .dsl) := by
    decide +kernel
  have spaced : ∃ character ∈ "1.1 beta".toList, Text.isBlank character = true :=
    ⟨' ', by decide, by decide⟩
  have refused := (compile_invalidSchemaVersion_iff accepted unstated noDocument
    "1.1 beta").mpr ⟨rfl, spaced, _, parsed, by simp⟩
  exact ⟨accepted, unstated, noDocument, refused⟩

/-- Accepted settings need not be usable: their version is refused in a text that has
nothing wrong in it. -/
theorem compile_spacedDefault :
    Settings.betaVersion.check = .ok () ∧
      Dsl.statesSchema "type user\n".toList = false ∧
        (∀ model, Document.read "type user\n".toList ≠ .ok model) ∧
          compile Settings.betaVersion.compiler "type user\n".toList =
            .error (.invalid [.invalidSchemaVersion "1.1 beta"]) := by
  have noDocument : ∀ model, Document.read "type user\n".toList ≠ .ok model := by
    intro model document
    obtain ⟨inner, start⟩ := Document.skipGap_of_read document
    cases start
  have refused : compile Settings.betaVersion.compiler "type user\n".toList =
      .error (.invalid [.invalidSchemaVersion "1.1 beta"]) := by
    decide +kernel
  exact ⟨by decide +kernel, by decide +kernel, noDocument, refused⟩

end Source

end Rebac
