import Rebac.Document.Reader
import Rebac.Proofs.Json.Distinct

/-!
# Slots of a document

Some values inside a document have to be objects: wildcards, direct assignments, and
metadata on each of its three levels.  This module names the slots of a document and says
which values stand in them.  Mending a document puts empty objects where the reader takes
other values for objects; it changes nothing exactly if these slots hold objects already.
-/

namespace Rebac

namespace Json

def isObject : Json → Bool
  | .object _ => true
  | _ => false

/-- Induction over the items and the members of a value. -/
theorem induct {motive : Json → Prop} (null : motive .null)
    (bool : ∀ value, motive (.bool value)) (number : ∀ value, motive (.number value))
    (string : ∀ text, motive (.string text))
    (array : ∀ items, (∀ item ∈ items, motive item) → motive (.array items))
    (object : ∀ members, (∀ member ∈ members, motive member.2) → motive (.object members))
    (value : Json) : motive value := by
  match value with
  | .null => exact null
  | .bool value => exact bool value
  | .number value => exact number value
  | .string text => exact string text
  | .array items =>
      exact array items fun item _ => induct null bool number string array object item
  | .object members =>
      exact object members fun member _ =>
        induct null bool number string array object member.2
termination_by sizeOf value
decreasing_by
  · rename_i member
    have smaller := List.sizeOf_lt_of_mem member
    rw [Json.array.sizeOf_spec]
    omega
  · rename_i listed
    have smaller := List.sizeOf_lt_of_mem listed
    obtain ⟨key, inner⟩ := member
    change sizeOf inner < _
    rw [Prod.mk.sizeOf_spec] at smaller
    rw [Json.object.sizeOf_spec]
    omega

end Json

namespace Document

/-- What a value inside a document stands for. -/
inductive Slot where
  | model
  | types
  | type
  | rules
  | rule
  | direct
  | union
  | children
  | metadata
  | assignments
  | assignment
  | entries
  | entry
  | wildcard
  /-- Nothing in which the shape of an object is looked for. -/
  | other
  deriving DecidableEq

namespace Slot

/-- What stands under a key of an object. -/
def member : Slot → String → Slot
  | .model, "type_definitions" => .types
  | .type, "relations" => .rules
  | .type, "metadata" => .metadata
  | .rules, _ => .rule
  | .rule, "this" => .direct
  | .rule, "union" => .union
  | .union, "child" => .children
  | .metadata, "relations" => .assignments
  | .assignments, _ => .assignment
  | .assignment, "directly_related_user_types" => .entries
  | .entry, "wildcard" => .wildcard
  | _, _ => .other

/-- What the items of an array stand for. -/
def item : Slot → Slot
  | .types => .type
  | .children => .rule
  | .entries => .entry
  | _ => .other

/-- The slots in which the reader takes any value for an object. -/
def isUnchecked : Slot → Bool
  | .direct | .metadata | .assignment | .wildcard => true
  | _ => false

/-- Whether a value has the shape that a slot asks for.  Only a direct assignment may
not be null. -/
def fits (slot : Slot) (value : Json) : Bool :=
  if slot.isUnchecked || slot = .assignments then
    value.isObject || (value.isNull && slot ≠ .direct)
  else true

end Slot

/-- The values inside a value that stands in a slot, with their own slots. -/
inductive Stands (root : Slot) (document : Json) : Slot → Json → Prop where
  | here : Stands root document root document
  | item {slot next : Slot} {items : List Json} {value : Json}
      (array : Stands root document slot (.array items)) (member : value ∈ items)
      (step : slot.item = next) : Stands root document next value
  | member {slot next : Slot} {members : List (String × Json)} {key : String} {value : Json}
      (object : Stands root document slot (.object members))
      (listed : (key, value) ∈ members) (step : slot.member key = next) :
      Stands root document next value

/-- Every slot of a document holds a value of the shape that it asks for. -/
def IsWellShaped (document : Json) : Prop :=
  ∀ slot value, Stands .model document slot value → slot.fits value = true

/-- What the reader sees of a value that is no object. -/
def Slot.repair (slot : Slot) (value : Json) : Json :=
  if slot.isUnchecked then .object [] else value

mutual

/-- Put empty objects where the reader takes other values for objects. -/
def mend (slot : Slot) : Json → Json
  | .null => if slot = .direct then .object [] else .null
  | .bool value => slot.repair (.bool value)
  | .number value => slot.repair (.number value)
  | .string text => slot.repair (.string text)
  | .array items => slot.repair (.array (mendItems slot.item items))
  | .object members => .object (mendMembers slot members)

/-- List counterpart of `Document.mend`. -/
def mendItems (slot : Slot) : List Json → List Json
  | [] => []
  | item :: items => mend slot item :: mendItems slot items

/-- Member counterpart of `Document.mend`. -/
def mendMembers (slot : Slot) : List (String × Json) → List (String × Json)
  | [] => []
  | (key, value) :: members => (key, mend (slot.member key) value) :: mendMembers slot members

end

variable {slot : Slot} {value : Json}

theorem mendItems_eq_map (slot : Slot) (items : List Json) :
    mendItems slot items = items.map (mend slot) := by
  induction items with
  | nil => rfl
  | cons item items induction => rw [mendItems, induction, List.map_cons]

theorem mendMembers_eq_map (slot : Slot) (members : List (String × Json)) :
    mendMembers slot members =
      members.map fun member => (member.1, mend (slot.member member.1) member.2) := by
  induction members with
  | nil => rfl
  | cons member members induction => rw [mendMembers, induction, List.map_cons]

theorem find?_mendMembers (slot : Slot) (key : String) (members : List (String × Json)) :
    Json.find? key (mendMembers slot members) =
      (Json.find? key members).map (mend (slot.member key)) := by
  induction members with
  | nil => rfl
  | cons member members induction =>
      rw [mendMembers, Json.find?, Json.find?]
      split
      · rename_i same
        rw [same]
        rfl
      · exact induction

theorem member?_mend (slot : Slot) (value : Json) (key : String) :
    (mend slot value).member? key = (value.member? key).map (mend (slot.member key)) := by
  cases value with
  | object members => exact find?_mendMembers slot key members
  | null =>
      rw [mend]
      split <;> rfl
  | _ =>
      rw [mend, Slot.repair]
      split <;> rfl

theorem mend_other (value : Json) : mend .other value = value := by
  induction value using Json.induct with
  | array items induction =>
      have same : mendItems .other items = items := by
        rw [mendItems_eq_map]
        exact (List.map_congr_left induction).trans (List.map_id _)
      exact congrArg Json.array same
  | object members induction =>
      have same : mendMembers .other members = members := by
        rw [mendMembers_eq_map]
        exact (List.map_congr_left fun member listed =>
          congrArg (member.1, ·) (induction member listed)).trans (List.map_id _)
      exact congrArg Json.object same
  | _ => rfl

theorem isNull_mend (nullable : slot ≠ .direct) : (mend slot value).isNull = value.isNull := by
  cases value with
  | null => rw [mend, if_neg nullable]
  | object members => rfl
  | _ =>
      rw [mend, Slot.repair]
      split <;> rfl

theorem filledMember?_mend {key : String} (nullable : slot.member key ≠ .direct) :
    (mend slot value).filledMember? key =
      (value.filledMember? key).map (mend (slot.member key)) := by
  rw [Json.filledMember?, Json.filledMember?, member?_mend]
  cases value.member? key with
  | none => rfl
  | some inner =>
      rw [Option.map_some, Option.filter_some, Option.filter_some, isNull_mend nullable]
      split <;> rfl

theorem isSome_filledMember?_mend {key : String} (nullable : slot.member key ≠ .direct) :
    ((mend slot value).filledMember? key).isSome = (value.filledMember? key).isSome := by
  rw [filledMember?_mend nullable, Option.isSome_map]

theorem mem_of_mendItems_eq {items : List Json} (same : mendItems slot items = items) :
    ∀ item ∈ items, mend slot item = item := by
  rw [mendItems_eq_map] at same
  exact List.map_inj_left.mp (same.trans (List.map_id items).symm)

theorem mem_of_mendMembers_eq {members : List (String × Json)}
    (same : mendMembers slot members = members) :
    ∀ member ∈ members, mend (slot.member member.1) member.2 = member.2 := by
  rw [mendMembers_eq_map] at same
  intro member listed
  have equal := List.map_inj_left.mp (same.trans (List.map_id members).symm) member listed
  exact congrArg Prod.snd equal

/-- A value that needs no mending has only such values inside. -/
theorem mend_of_stands {root : Slot} {document : Json} (same : mend root document = document)
    (stands : Stands root document slot value) : mend slot value = value := by
  induction stands with
  | here => exact same
  | item array member step induction =>
      subst step
      rw [mend, Slot.repair] at induction
      split at induction
      · cases induction
      · exact mem_of_mendItems_eq (Json.array.inj induction) _ member
  | member object listed step induction =>
      subst step
      exact mem_of_mendMembers_eq (Json.object.inj induction) _ listed

theorem fits_of_not_unchecked (checked : slot.isUnchecked = false)
    (asked : slot ≠ .assignments) (value : Json) : slot.fits value = true := by
  simp [Slot.fits, checked, asked]

theorem not_unchecked_of_fits (noObject : value.isObject = false)
    (filled : value.isNull = false)
    (fits : slot ≠ .assignments → slot.fits value = true) : slot.isUnchecked = false := by
  cases unchecked : slot.isUnchecked with
  | false => rfl
  | true =>
      have asked : slot ≠ .assignments := by
        rintro rfl
        cases unchecked
      have fitting := fits asked
      simp [Slot.fits, unchecked, noObject, filled] at fitting

theorem not_unchecked_of_repair_eq {repaired : Json} (noObject : value.isObject = false)
    (same : slot.repair repaired = value) : slot.isUnchecked = false := by
  cases unchecked : slot.isUnchecked with
  | false => rfl
  | true =>
      rw [Slot.repair, if_pos unchecked] at same
      rw [← same] at noObject
      cases noObject

theorem repair_of_not_unchecked (checked : slot.isUnchecked = false) (value : Json) :
    slot.repair value = value := by
  rw [Slot.repair, checked]
  rfl

theorem fits_of_mend_eq_self (same : mend slot value = value) (asked : slot ≠ .assignments) :
    slot.fits value = true := by
  cases value with
  | null =>
      have notDirect : slot ≠ .direct := by
        rintro rfl
        cases same
      simp [Slot.fits, Json.isNull, notDirect]
  | object members => simp [Slot.fits, Json.isObject]
  | _ => exact fits_of_not_unchecked (not_unchecked_of_repair_eq rfl same) asked _

theorem Stands.trans {root place : Slot} {document inner : Json}
    (outer : Stands root document slot value) (inside : Stands slot value place inner) :
    Stands root document place inner := by
  induction inside with
  | here => exact outer
  | item _ member step induction => exact .item induction member step
  | member _ listed step induction => exact .member induction listed step

/-- Exactly the values that fit their slots need no mending. -/
theorem mend_eq_self_iff :
    mend slot value = value ↔
      ∀ place inner, Stands slot value place inner → place ≠ .assignments →
        place.fits inner = true := by
  constructor
  · intro same place inner stands asked
    exact fits_of_mend_eq_self (mend_of_stands same stands) asked
  · intro fits
    -- By induction over the value: what stands inside a part stands inside the whole.
    have here := fits slot value .here
    induction value using Json.induct generalizing slot with
    | null =>
        have notDirect : slot ≠ .direct := by
          rintro rfl
          cases here (by decide)
        rw [mend, if_neg notDirect]
    | array items induction =>
        have same : mendItems slot.item items = items := by
          rw [mendItems_eq_map]
          apply (List.map_congr_left _).trans (List.map_id items)
          intro item member
          have inside : Stands slot (.array items) slot.item item := .item .here member rfl
          exact induction item member
            (fun place inner stands => fits place inner (inside.trans stands))
            (fits _ _ inside)
        rw [mend, repair_of_not_unchecked (not_unchecked_of_fits rfl rfl here), same]
    | object members induction =>
        have same : mendMembers slot members = members := by
          rw [mendMembers_eq_map]
          apply (List.map_congr_left _).trans (List.map_id members)
          intro member listed
          have inside : Stands slot (.object members) (slot.member member.1) member.2 :=
            .member .here listed rfl
          have kept := induction member listed
            (fun place inner stands => fits place inner (inside.trans stands))
            (fits _ _ inside)
          exact congrArg (member.1, ·) kept
        rw [mend, same]
    | _ => exact repair_of_not_unchecked (not_unchecked_of_fits rfl rfl here) _

theorem mend_repair (checked : slot.isUnchecked = false → mend slot value = value) :
    mend slot (slot.repair value) = slot.repair value := by
  cases unchecked : slot.isUnchecked with
  | false => rw [repair_of_not_unchecked unchecked, checked unchecked]
  | true =>
      rw [Slot.repair, if_pos unchecked]
      rfl

theorem mend_mend (slot : Slot) (value : Json) :
    mend slot (mend slot value) = mend slot value := by
  induction value using Json.induct generalizing slot with
  | null =>
      rw [mend]
      split
      · rfl
      · rename_i notDirect
        rw [mend, if_neg notDirect]
  | array items induction =>
      have same : mendItems slot.item (mendItems slot.item items) =
          mendItems slot.item items := by
        rw [mendItems_eq_map, mendItems_eq_map, List.map_map]
        exact List.map_congr_left fun item member => induction item member slot.item
      rw [mend]
      apply mend_repair
      intro checked
      rw [mend, same, repair_of_not_unchecked checked]
  | object members induction =>
      have same : mendMembers slot (mendMembers slot members) = mendMembers slot members := by
        rw [mendMembers_eq_map, mendMembers_eq_map, List.map_map]
        exact List.map_congr_left fun member listed =>
          congrArg (member.1, ·) (induction member listed (slot.member member.1))
      rw [mend, mend, same]
  | _ =>
      rw [mend]
      apply mend_repair
      intro checked
      rw [mend, repair_of_not_unchecked checked]

theorem isDistinct_repair (distinct : value.IsDistinct) (slot : Slot) :
    (slot.repair value).IsDistinct := by
  rw [Slot.repair]
  split
  · exact .object (by simp) (by simp)
  · exact distinct

theorem isDistinct_mend (distinct : value.IsDistinct) (slot : Slot) :
    (mend slot value).IsDistinct := by
  induction distinct generalizing slot with
  | null =>
      rw [mend]
      split
      · exact .object (by simp) (by simp)
      · exact .null
  | array each induction =>
      apply isDistinct_repair
      rw [mendItems_eq_map]
      apply Json.IsDistinct.array
      intro item member
      obtain ⟨source, inItems, rfl⟩ := List.mem_map.mp member
      exact induction source inItems slot.item
  | object keys each induction =>
      rw [mend, mendMembers_eq_map]
      apply Json.IsDistinct.object
      · rw [List.map_map]
        exact keys
      · intro member listed
        obtain ⟨source, inMembers, rfl⟩ := List.mem_map.mp listed
        exact induction source inMembers (slot.member source.1)
  | bool value => exact isDistinct_repair (.bool value) slot
  | number value => exact isDistinct_repair (.number value) slot
  | string text => exact isDistinct_repair (.string text) slot

end Document

end Rebac
