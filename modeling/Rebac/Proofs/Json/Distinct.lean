import Rebac.Proofs.Json.Printed

/-!
# Values with distinct keys

A JSON text may repeat a key, but no object of a value that is read from it does, at
any depth.  In such an object a member is found under its key, wherever it stands.
-/

namespace Rebac.Json

/-- No object names a member twice, at any depth. -/
inductive IsDistinct : Json → Prop where
  | null : IsDistinct .null
  | bool (value : Bool) : IsDistinct (.bool value)
  | number (value : JsonNumber) : IsDistinct (.number value)
  | string (text : String) : IsDistinct (.string text)
  | array {items : List Json} (each : ∀ item ∈ items, IsDistinct item) :
      IsDistinct (.array items)
  | object {members : List (String × Json)} (distinct : (members.map (·.1)).Nodup)
      (each : ∀ member ∈ members, IsDistinct member.2) : IsDistinct (.object members)

variable {key : String} {value : Json} {members : List (String × Json)}

theorem mem_of_find? (found : find? key members = some value) : (key, value) ∈ members := by
  induction members with
  | nil => cases found
  | cons member members induction =>
      rw [find?] at found
      split at found
      · rename_i same
        obtain rfl := Option.some.inj found
        rw [← same]
        exact List.mem_cons_self
      · exact List.mem_cons_of_mem _ (induction found)

theorem find?_of_mem (distinct : (members.map (·.1)).Nodup)
    (member : (key, value) ∈ members) : find? key members = some value := by
  induction members with
  | nil => cases member
  | cons first members induction =>
      rw [List.map_cons, List.nodup_cons] at distinct
      rcases List.mem_cons.mp member with rfl | later
      · exact if_pos rfl
      · have other : first.1 ≠ key := by
          rintro rfl
          exact distinct.1 (List.mem_map.mpr ⟨_, later, rfl⟩)
        rw [find?, if_neg other, induction distinct.2 later]

theorem IsDistinct.of_member? {inner : Json} (distinct : value.IsDistinct)
    (found : value.member? key = some inner) : inner.IsDistinct := by
  cases distinct with
  | object _ each => exact each _ (mem_of_find? found)
  | _ => cases found

theorem IsDistinct.of_filledMember? {inner : Json} (distinct : value.IsDistinct)
    (found : value.filledMember? key = some inner) : inner.IsDistinct :=
  distinct.of_member? (Option.filter_eq_some_iff.mp found).1

theorem IsDistinct.each_item {items : List Json} (distinct : (Json.array items).IsDistinct) :
    ∀ item ∈ items, item.IsDistinct := by
  cases distinct with
  | array each => exact each

theorem IsDistinct.each_member (distinct : (Json.object members).IsDistinct) :
    ∀ member ∈ members, member.2.IsDistinct := by
  cases distinct with
  | object _ each => exact each

theorem IsDistinct.keys (distinct : (Json.object members).IsDistinct) :
    (members.map (·.1)).Nodup := by
  cases distinct with
  | object distinct _ => exact distinct

theorem keys_put_of_mem (known : key ∈ members.map (·.1)) (value : Json) :
    (put key value members).map (·.1) = members.map (·.1) := by
  induction members with
  | nil => cases known
  | cons member members induction =>
      rw [put]
      split
      · rename_i same
        rw [List.map_cons, List.map_cons, same]
      · rename_i different
        have later := List.mem_of_ne_of_mem (Ne.symm different) known
        rw [List.map_cons, induction later, List.map_cons]

theorem mem_put {member : String × Json} (listed : member ∈ put key value members) :
    member = (key, value) ∨ member ∈ members := by
  induction members with
  | nil => exact Or.inl (List.mem_singleton.mp listed)
  | cons first members induction =>
      rw [put] at listed
      split at listed
      · rcases List.mem_cons.mp listed with rfl | later
        · exact Or.inl rfl
        · exact Or.inr (List.mem_cons_of_mem _ later)
      · rcases List.mem_cons.mp listed with rfl | later
        · exact Or.inr List.mem_cons_self
        · rcases induction later with new | old
          · exact Or.inl new
          · exact Or.inr (List.mem_cons_of_mem _ old)

theorem isDistinct_put (object : (Json.object members).IsDistinct)
    (distinct : value.IsDistinct) (key : String) :
    (Json.object (put key value members)).IsDistinct := by
  cases object with
  | object keys each =>
      constructor
      · by_cases known : key ∈ members.map (·.1)
        · rw [keys_put_of_mem known]
          exact keys
        · rw [put_of_not_mem known, List.map_append, List.nodup_append]
          refine ⟨keys, by simp, fun other member final inSingle => ?_⟩
          obtain rfl : final = key := List.mem_singleton.mp inSingle
          rintro rfl
          exact known member
      · intro member listed
        rcases mem_put listed with rfl | old
        · exact distinct
        · exact each member old

theorem isDistinct_foldl_put {earlier : List (String × Json)}
    (object : (Json.object earlier).IsDistinct)
    (each : ∀ member ∈ members, member.2.IsDistinct) :
    (Json.object (members.foldl (fun object member =>
      put member.1 member.2 object) earlier)).IsDistinct := by
  induction members generalizing earlier with
  | nil => exact object
  | cons member members induction =>
      exact induction (isDistinct_put object (each member (by simp)) member.1)
        fun other inTail => each other (by simp [inTail])

mutual

theorem isDistinct_collapse (value : Json) : value.collapse.IsDistinct := by
  cases value with
  | null => exact .null
  | bool value => exact .bool value
  | number value => exact .number value
  | string text => exact .string text
  | array items => exact .array (isDistinct_collapseItems items)
  | object members =>
      have empty : (Json.object []).IsDistinct := .object (by simp) (by simp)
      exact isDistinct_foldl_put empty (isDistinct_collapseMembers members)

theorem isDistinct_collapseItems (items : List Json) :
    ∀ item ∈ collapseItems items, item.IsDistinct := by
  intro item member
  cases items with
  | nil => cases member
  | cons first items =>
      rcases List.mem_cons.mp member with rfl | later
      · exact isDistinct_collapse first
      · exact isDistinct_collapseItems items item later

theorem isDistinct_collapseMembers (members : List (String × Json)) :
    ∀ member ∈ collapseMembers members, member.2.IsDistinct := by
  intro member listed
  cases members with
  | nil => cases listed
  | cons first members =>
      rcases List.mem_cons.mp listed with rfl | later
      · exact isDistinct_collapse first.2
      · exact isDistinct_collapseMembers members member later

end

/-- A value from which nothing collapses has distinct keys. -/
theorem isDistinct_of_collapse (same : value.collapse = value) : value.IsDistinct := by
  rw [← same]
  exact isDistinct_collapse value

/-- A value that is read from a text names every member once. -/
theorem isDistinct_of_read {text : List Char} (parsed : read text = .ok value) :
    value.IsDistinct := by
  unfold read at parsed
  split at parsed
  · cases parsed
  · obtain rfl := Except.ok.inj parsed
    exact isDistinct_collapse _

end Rebac.Json
