import Rebac.Command
import Rebac.Proofs.Document.Read
import Rebac.Proofs.Dsl.RoundTrip

/-!
# Compiling again

A model that compiles, from a text in either format, fits a document.  Its
document therefore compiles to the same model, and converting it to DSL text
yields what the conversion of the first text yields.
-/

namespace Rebac

theorem UserType.IsSpellable.fitsDocument {entry : UserType}
    (spellable : entry.IsSpellable) : entry.FitsDocument := by
  have unnamed : ¬ isName "" = true := by decide
  constructor
  · exact fun empty => unnamed (spellable.relation "" empty)
  · exact fun empty => unnamed (spellable.condition "" empty)
  · exact spellable.exclusive

namespace Model

variable {model : Model}

/-- DSL text that is written is no document. -/
theorem exists_read_toDsl_error (model : Model) :
    ∃ error, Document.read model.toDsl = .error error := by
  have start : ∃ rest, model.toDsl = 'm' :: rest := ⟨_, rfl⟩
  obtain ⟨rest, start⟩ := start
  have failed : Json.readDocument ('m' :: rest) =
      .error (Json.Fault.at .expectedValue ('m' :: rest)) := rfl
  rw [Document.read, Json.read, start, failed]
  exact ⟨_, rfl⟩

theorem fitsDocument_of_valid (valid : model.violations = [])
    (entries : ∀ type ∈ model.types, ∀ relation ∈ type.relations,
      relation.HasFittingEntries) : model.FitsDocument := by
  constructor
  · intro type inTypes
    constructor
    · exact relationNames_nodup_of_valid valid inTypes
    · intro relation inType
      exact ⟨isCanonical_of_valid valid inTypes inType,
        entries type inTypes relation inType⟩
  · exact conditionNames_nodup_of_valid valid
  · intro condition member
    obtain ⟨wellFormed, noReturn⟩ :=
      Condition.check_eq_ok_iff_isWellFormed.mp (check_of_valid valid member)
    exact ⟨wellFormed.fresh.nodup, wellFormed.tight, noReturn⟩

end Model

theorem Dsl.hasFittingEntries_of_read {initial : String} {text : List Char}
    {model : Model} (parsed : read initial text = .ok model) :
    ∀ type ∈ model.types, ∀ relation ∈ type.relations, relation.HasFittingEntries := by
  intro type inTypes relation inType entry listed
  have wellFormed := ((isWellFormed_of_read parsed).types type inTypes).relations
    relation inType
  exact (wellFormed.spellable.entries entry listed).fitsDocument

namespace Source

variable {settings : CompilerSettings} {text : List Char} {model : Model}
  {format : Format}

theorem hasFittingEntries_of_read (parsed : read settings text = .ok (model, format)) :
    ∀ type ∈ model.types, ∀ relation ∈ type.relations, relation.HasFittingEntries := by
  unfold read at parsed
  simp only at parsed
  split at parsed
  · cases parsed
  · split at parsed
    · rename_i found
      cases parsed
      exact Document.hasFittingEntries_of_read found
    · split at parsed
      · rename_i found
        cases parsed
        exact Dsl.hasFittingEntries_of_read found
      · cases parsed

theorem compile_eq_ok_iff :
    compile settings text = .ok (model, format) ↔
      read settings text = .ok (model, format) ∧ model.violations = [] := by
  unfold compile
  constructor
  · intro compiled
    split at compiled
    · cases compiled
    · split at compiled
      · rename_i found _ valid
        cases compiled
        exact ⟨found, valid⟩
      · cases compiled
  · rintro ⟨found, valid⟩
    simp only [found, valid]

theorem fitsDocument_of_compile (compiled : compile settings text = .ok (model, format)) :
    model.FitsDocument := by
  obtain ⟨parsed, valid⟩ := compile_eq_ok_iff.mp compiled
  exact Model.fitsDocument_of_valid valid (hasFittingEntries_of_read parsed)

theorem read_of_document {limit : Nat} (admitted : Text.byteSize text ≤ limit)
    (found : Document.read text = .ok model) :
    read { settings with maxInputBytes := limit } text = .ok (model, .json) := by
  unfold read
  simp only [found, if_neg (Nat.not_lt.mpr admitted)]

theorem execute_toDsl_of_compile (compiled : compile settings text = .ok (model, format)) :
    Command.toDsl.execute settings text = .ok model.toDsl := by
  simp only [Command.execute, toDsl, compiled, Except.map]

/-- A model that compiles is the model of its document, and converting its text to DSL
prints it.  If the document is admitted, it compiles to this model, and converting it
to DSL text repeats what converting the first text yields. -/
theorem compile_toJsonText (compiled : compile settings text = .ok (model, format)) :
    Document.read model.toJsonText = .ok model ∧
      Command.toJson.execute settings text = .ok model.toJsonText ∧
        Command.toDsl.execute settings text = .ok model.toDsl ∧
          ∀ limit, Text.byteSize model.toJsonText ≤ limit →
            compile { settings with maxInputBytes := limit } model.toJsonText =
                .ok (model, .json) ∧
              Command.toDsl.execute { settings with maxInputBytes := limit }
                  model.toJsonText = .ok model.toDsl ∧
                Command.toDsl.execute { settings with maxInputBytes := limit }
                    model.toJsonText =
                  Command.toDsl.execute settings text := by
  have readBack := Document.read_toJsonText (fitsDocument_of_compile compiled)
  have valid := (compile_eq_ok_iff.mp compiled).2
  have printed := execute_toDsl_of_compile compiled
  refine ⟨readBack, ?_, printed, ?_⟩
  · simp only [Command.execute, toJson, compiled, Except.map, Model.toJsonText]
  · intro limit admitted
    have again : compile { settings with maxInputBytes := limit } model.toJsonText =
        .ok (model, .json) :=
      compile_eq_ok_iff.mpr ⟨read_of_document admitted readBack, valid⟩
    have printedAgain := execute_toDsl_of_compile again
    exact ⟨again, printedAgain, printedAgain.trans printed.symm⟩

theorem compile_toDsl_folders :
    compile .standard Model.folders.toDsl = .ok (Model.folders, .dsl) := by
  have admitted : Text.byteSize Model.folders.toDsl ≤
      CompilerSettings.standard.maxInputBytes := by decide +kernel
  obtain ⟨error, noDocument⟩ := Model.folders.exists_read_toDsl_error
  have parsed := Model.read_toDsl_of_fitsDsl Model.violations_folders
    Model.fitsDsl_folders CompilerSettings.standard.defaultSchemaVersion
  apply compile_eq_ok_iff.mpr
  refine ⟨?_, Model.violations_folders⟩
  simp only [read, if_neg (Nat.not_lt.mpr admitted), noDocument, parsed]

theorem compile_toJsonText_folders :
    compile .standard Model.folders.toDsl = .ok (Model.folders, .dsl) ∧
      compile { CompilerSettings.standard with
          maxInputBytes := Text.byteSize Model.folders.toJsonText }
        Model.folders.toJsonText = .ok (Model.folders, .json) :=
  ⟨compile_toDsl_folders,
    ((compile_toJsonText compile_toDsl_folders).2.2.2 _ (Nat.le_refl _)).1⟩

end Source

end Rebac
