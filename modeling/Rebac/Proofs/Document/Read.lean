import Rebac.Proofs.Document.RoundTrip
import Rebac.Proofs.Outcome

/-!
# What the reader of documents yields

Every direct user type that is read from a document fits a document: it is not
qualified twice, and an empty name is read as none.
-/

namespace Rebac

/-- Whether all direct user types of a relation fit a document. -/
def Relation.HasFittingEntries (relation : Relation) : Prop :=
  ∀ entry ∈ relation.userTypes, entry.FitsDocument

namespace Document

theorem filled_of_readOptionalString {place : Place} {value : Json} {field : String}
    {name : Option String} (read : readOptionalString place value field = .ok name) :
    name ≠ some "" := by
  unfold readOptionalString at read
  split at read
  · obtain rfl := Except.ok.inj read
    simp
  · obtain rfl := Except.ok.inj read
    simp
  · split at read
    · obtain rfl := Except.ok.inj read
      simp
    · rename_i filled
      obtain rfl := Except.ok.inj read
      intro empty
      obtain rfl := Option.some.inj empty
      exact filled rfl
  · cases read

theorem fitsDocument_of_readUserType {place : Place} {value : Json} {entry : UserType}
    (read : readUserType place value = .ok entry) : entry.FitsDocument := by
  obtain ⟨_, _, read⟩ := bind_eq_ok_iff.mp read
  obtain ⟨typeName, _, read⟩ := bind_eq_ok_iff.mp read
  obtain ⟨relation, namedRelation, read⟩ := bind_eq_ok_iff.mp read
  obtain ⟨condition, namedCondition, read⟩ := bind_eq_ok_iff.mp read
  split at read
  · cases read
  · rename_i unqualified
    obtain rfl := Except.ok.inj read
    constructor
    · exact filled_of_readOptionalString namedRelation
    · exact filled_of_readOptionalString namedCondition
    · intro qualified
      simpa [qualified] using unqualified

theorem fitsDocument_of_readUserTypes {place : Place} {values : List Json}
    {entries : List UserType} (read : readUserTypes place values = .ok entries) :
    ∀ entry ∈ entries, entry.FitsDocument := by
  induction values generalizing entries with
  | nil =>
      obtain rfl := Except.ok.inj read
      intro entry member
      cases member
  | cons value values induction =>
      obtain ⟨entry, first, read⟩ := bind_eq_ok_iff.mp read
      obtain ⟨others, later, read⟩ := bind_eq_ok_iff.mp read
      obtain rfl := Except.ok.inj read
      intro other member
      rcases List.mem_cons.mp member with rfl | inTail
      · exact fitsDocument_of_readUserType first
      · exact induction later other inTail

theorem userTypes_of_readRelations {typeName : String} {members : List (String × Json)}
    {relations : List Relation} (read : readRelations typeName members = .ok relations) :
    ∀ relation ∈ relations, relation.userTypes = [] := by
  induction members generalizing relations with
  | nil =>
      obtain rfl := Except.ok.inj read
      intro relation member
      cases member
  | cons member members induction =>
      obtain ⟨rule, _, read⟩ := bind_eq_ok_iff.mp read
      obtain ⟨others, later, read⟩ := bind_eq_ok_iff.mp read
      obtain rfl := Except.ok.inj read
      intro relation inRelations
      rcases List.mem_cons.mp inRelations with rfl | inTail
      · rfl
      · exact induction later relation inTail

theorem mem_assignUserTypes {name : String} {entries : List UserType}
    {relations : List Relation} {relation : Relation}
    (member : relation ∈ assignUserTypes name entries relations) :
    relation.userTypes = entries ∨ relation ∈ relations := by
  induction relations with
  | nil => cases member
  | cons first relations induction =>
      rw [assignUserTypes] at member
      split at member
      · rcases List.mem_cons.mp member with rfl | inTail
        · exact Or.inl rfl
        · exact Or.inr (List.mem_cons_of_mem _ inTail)
      · rcases List.mem_cons.mp member with rfl | inTail
        · exact Or.inr List.mem_cons_self
        · rcases induction inTail with assigned | earlier
          · exact Or.inl assigned
          · exact Or.inr (List.mem_cons_of_mem _ earlier)

theorem hasFittingEntries_of_readMetadata {typeName : String}
    {relations final : List Relation} {members : List (String × Json)}
    (fits : ∀ relation ∈ relations, relation.HasFittingEntries)
    (read : readMetadata typeName relations members = .ok final) :
    ∀ relation ∈ final, relation.HasFittingEntries := by
  induction members generalizing relations with
  | nil =>
      obtain rfl := Except.ok.inj read
      exact fits
  | cons member members induction =>
      obtain ⟨name, value⟩ := member
      rw [readMetadata] at read
      split at read
      · split at read
        · exact induction fits read
        · split at read
          · cases read
          · rename_i entries readEntries
            apply induction _ read
            intro relation inRelations
            rcases mem_assignUserTypes inRelations with assigned | earlier
            · rw [Relation.HasFittingEntries, assigned]
              exact fitsDocument_of_readUserTypes readEntries
            · exact fits relation earlier
        · cases read
      · cases read

theorem hasFittingEntries_of_readType {value : Json} {type : TypeDefinition}
    (read : readType value = .ok type) :
    ∀ relation ∈ type.relations, relation.HasFittingEntries := by
  obtain ⟨_, _, read⟩ := bind_eq_ok_iff.mp read
  obtain ⟨name, _, read⟩ := bind_eq_ok_iff.mp read
  obtain ⟨rules, _, read⟩ := bind_eq_ok_iff.mp read
  obtain ⟨relations, readRules, read⟩ := bind_eq_ok_iff.mp read
  obtain ⟨metadata, _, read⟩ := bind_eq_ok_iff.mp read
  obtain ⟨final, completed, read⟩ := bind_eq_ok_iff.mp read
  obtain rfl := Except.ok.inj read
  apply hasFittingEntries_of_readMetadata _ completed
  intro relation member entry listed
  rw [userTypes_of_readRelations readRules relation member] at listed
  cases listed

theorem exists_value_of_readTypes {values : List Json} {types : List TypeDefinition}
    (read : readTypes values = .ok types) {type : TypeDefinition} (member : type ∈ types) :
    ∃ value ∈ values, readType value = .ok type := by
  induction values generalizing types with
  | nil =>
      obtain rfl := Except.ok.inj read
      cases member
  | cons value values induction =>
      obtain ⟨first, head, read⟩ := bind_eq_ok_iff.mp read
      obtain ⟨others, later, read⟩ := bind_eq_ok_iff.mp read
      obtain rfl := Except.ok.inj read
      rcases List.mem_cons.mp member with rfl | inTail
      · exact ⟨value, by simp, head⟩
      · obtain ⟨source, inValues, read⟩ := induction later inTail
        exact ⟨source, by simp [inValues], read⟩

theorem exists_readType_of_mem {values : List Json} {types : List TypeDefinition}
    (read : readTypes values = .ok types) {value : Json} (member : value ∈ values) :
    ∃ type, readType value = .ok type := by
  induction values generalizing types with
  | nil => cases member
  | cons first values induction =>
      obtain ⟨type, head, read⟩ := bind_eq_ok_iff.mp read
      obtain ⟨others, later, read⟩ := bind_eq_ok_iff.mp read
      rcases List.mem_cons.mp member with rfl | inTail
      · exact ⟨type, head⟩
      · exact induction later inTail

theorem hasFittingEntries_of_readTypes {values : List Json} {types : List TypeDefinition}
    (read : readTypes values = .ok types) :
    ∀ type ∈ types, ∀ relation ∈ type.relations, relation.HasFittingEntries := by
  intro type member
  obtain ⟨value, _, read⟩ := exists_value_of_readTypes read member
  exact hasFittingEntries_of_readType read

/-- All direct user types of a model that is read fit a document. -/
theorem hasFittingEntries_of_read {text : List Char} {model : Model}
    (parsed : read text = .ok model) :
    ∀ type ∈ model.types, ∀ relation ∈ type.relations, relation.HasFittingEntries := by
  unfold read at parsed
  split at parsed
  · cases parsed
  · obtain ⟨_, _, parsed⟩ := bind_eq_ok_iff.mp parsed
    obtain ⟨version, _, parsed⟩ := bind_eq_ok_iff.mp parsed
    split at parsed
    · cases parsed
    · obtain ⟨types, readTypes, parsed⟩ := bind_eq_ok_iff.mp parsed
      obtain ⟨members, _, parsed⟩ := bind_eq_ok_iff.mp parsed
      obtain ⟨conditions, _, parsed⟩ := bind_eq_ok_iff.mp parsed
      obtain rfl := Except.ok.inj parsed
      exact hasFittingEntries_of_readTypes readTypes
    · cases parsed

end Document

end Rebac
