import Rebac.Compile
import Rebac.Proofs.Dsl.Reading
import Rebac.Proofs.Text.Lines

/-!
# The two formats of sources

A document is an object, so the first solid character of its text is a brace.  No
statement starts with one, whatever the scanner makes of the text before the first
statement is applied.  No text is read in both formats, and it does not matter which
of them is tried first.
-/

namespace Rebac

namespace Json

theorem exists_array_of_readItems {budget levels : Nat} {reversed : List Json}
    {text rest : List Char} {value : Json}
    (read : readItems budget levels reversed text = .ok (value, rest)) :
    ∃ items, value = .array items := by
  induction budget generalizing reversed text with
  | zero => cases read
  | succ budget induction =>
      rw [readItems] at read
      split at read
      · cases read
      · split at read
        · cases read
        · cases read
          exact ⟨_, rfl⟩
        · split at read
          · cases read
          · cases read
          · exact induction read
        · cases read

theorem skipGap_of_readValue {budget levels : Nat} {text rest : List Char}
    {members : List (String × Json)}
    (read : readValue budget levels text = .ok (.object members, rest)) :
    ∃ inner, Text.skipGap text = '\x7b' :: inner := by
  cases budget with
  | zero => cases read
  | succ budget =>
      rw [readValue] at read
      split at read
      · cases read
      · obtain ⟨_, _, same⟩ := map_eq_ok_iff.mp read
        cases same
      · obtain ⟨_, _, same⟩ := map_eq_ok_iff.mp read
        cases same
      · obtain ⟨_, _, same⟩ := map_eq_ok_iff.mp read
        cases same
      · obtain ⟨_, _, same⟩ := map_eq_ok_iff.mp read
        cases same
      · split at read
        · cases read
        · split at read
          · cases read
          · cases read
          · obtain ⟨_, same⟩ := exists_array_of_readItems read
            cases same
      · rename_i start
        exact ⟨_, start⟩
      · split at read
        · obtain ⟨_, _, same⟩ := map_eq_ok_iff.mp read
          cases same
        · cases read

theorem skipGap_of_read {text : List Char} {members : List (String × Json)}
    (parsed : read text = .ok (.object members)) :
    ∃ inner, Text.skipGap text = '\x7b' :: inner := by
  unfold read readDocument at parsed
  split at parsed
  · cases parsed
  · rename_i value document
    have collapsed : ∃ others, value = .object others := by
      cases value with
      | object others => exact ⟨others, rfl⟩
      | _ => simp [collapse] at parsed
    obtain ⟨others, rfl⟩ := collapsed
    split at document
    · cases document
    · rename_i found
      split at document
      · obtain rfl := Except.ok.inj document
        exact skipGap_of_readValue found
      · cases document

end Json

theorem Document.skipGap_of_read {text : List Char} {model : Model}
    (parsed : read text = .ok model) : ∃ inner, Text.skipGap text = '\x7b' :: inner := by
  unfold read at parsed
  split at parsed
  · cases parsed
  · rename_i value found
    have object : ∃ members, value = .object members := by
      obtain ⟨_, whole, _⟩ := bind_eq_ok_iff.mp parsed
      cases value with
      | object members => exact ⟨members, rfl⟩
      | _ => cases whole
    obtain ⟨members, rfl⟩ := object
    exact Json.skipGap_of_read found

namespace Dsl

theorem Draft.applyText_brace (draft : Draft) (rest : List Char) :
    draft.applyText ('\x7b' :: rest) =
      .error (.unexpectedStatement (.unknown (String.ofList ('\x7b' :: rest)))) :=
  rfl

theorem dropTrailingComment_cons {character : Char} (solid : Text.isBlank character = false)
    (noComment : character ≠ '#') (rest : List Char) :
    ∃ others, dropTrailingComment (character :: rest) = character :: others := by
  have kept : cutComment true (character :: rest) =
      character :: cutComment (Text.isAsciiBlank character) rest := by
    simp [cutComment, noComment]
  rw [dropTrailingComment, kept]
  exact ⟨_, @Text.trimEnd_append [] character solid _⟩

/-- Blanks before a brace do not make it a statement. -/
theorem exists_read_error_of_brace {text inner : List Char}
    (start : Text.skipGap text = '\x7b' :: inner) (schemaVersion : String) :
    ∃ error, read schemaVersion text = .error error := by
  have blank : Text.AllBlank (text.takeWhile Text.isGap) := by
    intro character member
    have gap := List.all_eq_true.mp List.all_takeWhile character member
    exact Text.isBlank_of_isAsciiBlank (Text.isAsciiBlank_of_isGap gap)
  have solid : Text.isBlank '\x7b' = false := by decide
  have split : text = text.takeWhile Text.isGap ++ '\x7b' :: inner := by
    rw [← start]
    exact List.takeWhile_append_dropWhile.symm
  obtain ⟨front, line, later, tail, cut, empty, first⟩ :=
    Text.exists_lines_blank_append blank solid inner
  rw [← split] at cut
  have trimmed : Text.trim line = '\x7b' :: Text.trimEnd tail := by
    rw [Text.trim, first]
    exact @Text.trimEnd_append [] '\x7b' solid tail
  obtain ⟨others, dropped⟩ :=
    dropTrailingComment_cons solid (by decide) (Text.trimEnd tail)
  cases parsed : read schemaVersion text with
  | error error => exact ⟨error, rfl⟩
  | ok model =>
      obtain ⟨final, reads, _⟩ := read_eq_ok_iff.mp parsed
      rw [cut, reads_blanks empty,
        reads_statement (by simp [trimmed]) (by rw [trimmed]; rfl) (by rw [trimmed]; rfl),
        trimmed, dropped] at reads
      obtain ⟨next, applied, _⟩ := reads
      rw [Draft.applyText_brace] at applied
      cases applied

end Dsl

namespace Source

/-- Read a model in either format, trying DSL first. -/
def readDslFirst (settings : CompilerSettings) (text : List Char) :
    Except CompileError (Model × Format) :=
  let size := Text.byteSize text
  if settings.maxInputBytes < size then
    .error (.tooLarge size settings.maxInputBytes)
  else
    match Dsl.read settings.defaultSchemaVersion text with
    | .ok model => .ok (model, .dsl)
    | .error dsl =>
        match Document.read text with
        | .ok model => .ok (model, .json)
        | .error json => .error (.unreadable dsl json)

/-- No text is read in both formats, so trying DSL first changes nothing. -/
theorem formats_disjoint (settings : CompilerSettings) (text : List Char) :
    ¬ ((∃ model, Document.read text = .ok model) ∧
        ∃ model, Dsl.read settings.defaultSchemaVersion text = .ok model) ∧
      readDslFirst settings text = read settings text := by
  have disjoint : ∀ model, Document.read text = .ok model →
      ∃ error, Dsl.read settings.defaultSchemaVersion text = .error error := by
    intro model document
    obtain ⟨inner, start⟩ := Document.skipGap_of_read document
    exact Dsl.exists_read_error_of_brace start _
  constructor
  · rintro ⟨⟨model, document⟩, other, parsed⟩
    obtain ⟨error, failed⟩ := disjoint model document
    rw [failed] at parsed
    cases parsed
  · unfold readDslFirst read
    cases document : Document.read text with
    | ok model =>
        obtain ⟨error, failed⟩ := disjoint model document
        simp only [failed]
    | error json => rfl

end Source

end Rebac
