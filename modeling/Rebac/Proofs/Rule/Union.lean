import Rebac.Proofs.Rule.Canonical

/-!
# What canonical unions keep and what they flatten

The canonical union of any rules, however nested, keeps their leaves: the direct
assignments in number, all others in order as well.  It opens the unions among its rules,
but not the unions inside of these.  So it is canonical exactly if nothing is left to
open, or if a single member is left that is canonical itself.
-/

namespace Rebac.Rule

theorem leavesList_eq_flatMap (rules : List Rule) : leavesList rules = rules.flatMap leaves := by
  induction rules with
  | nil => rfl
  | cons rule rules induction => rw [leavesList, List.flatMap_cons, induction]

theorem leavesList_members (rule : Rule) : leavesList rule.members = rule.leaves := by
  cases rule with
  | union children => rw [members, leaves]
  | _ => rfl

theorem leavesList_flatMap_members (children : List Rule) :
    leavesList (children.flatMap members) = leavesList children := by
  induction children with
  | nil => rfl
  | cons child children induction =>
      rw [leavesList_eq_flatMap] at induction
      rw [List.flatMap_cons, leavesList_eq_flatMap, List.flatMap_append, induction,
        ← leavesList_eq_flatMap, leavesList_members, leavesList]

theorem filter_leavesList_directFirst (rules : List Rule) :
    (leavesList (directFirst rules)).filter (!·.isDirect) =
      (leavesList rules).filter (!·.isDirect) := by
  unfold directFirst
  split
  · rename_i found
    obtain ⟨rule, member, direct⟩ := List.any_eq_true.mp found
    obtain ⟨first, before, after, _, firstDirect, split, erased⟩ :=
      List.exists_of_eraseP member direct
    obtain rfl := isDirect_eq_true_iff.mp firstDirect
    rw [erased, split]
    simp [leavesList_eq_flatMap, leaves, isDirect]
  · rfl

theorem directCountList_directFirst (rules : List Rule) :
    directCountList (directFirst rules) = directCountList rules := by
  rw [directCountList_eq_countP, directCountList_eq_countP, leavesList_eq_flatMap,
    leavesList_eq_flatMap]
  exact ((directFirst_perm rules).flatMap_right leaves).countP_eq isDirect

/-- A canonical union consists of the members of its rules. -/
theorem leaves_unionOf_eq_leavesList (children : List Rule) :
    (unionOf children).leaves = leavesList (directFirst (children.flatMap members)) := by
  rw [unionOf]
  split
  · rename_i single shape
    rw [shape, leavesList, leavesList, List.append_nil]
  · rw [leaves]

theorem filter_leaves_unionOf (children : List Rule) :
    (unionOf children).leaves.filter (!·.isDirect) =
      (leavesList children).filter (!·.isDirect) := by
  rw [leaves_unionOf_eq_leavesList, filter_leavesList_directFirst, leavesList_flatMap_members]

theorem directCount_unionOf (children : List Rule) :
    (unionOf children).directCount = directCountList children := by
  have counted := directCountList_directFirst (children.flatMap members)
  rw [directCountList_eq_countP, directCountList_eq_countP, leavesList_flatMap_members]
    at counted
  rw [directCount_eq_countP, leaves_unionOf_eq_leavesList, counted, ← directCountList_eq_countP]

theorem unionOf_of_single {children : List Rule} {member : Rule}
    (single : children.flatMap members = [member]) : unionOf children = member := by
  have unmoved : directFirst [member] = [member] := by
    apply directFirst_of_head
    intro listed
    rw [List.mem_singleton.mp listed]
    rfl
  rw [unionOf, single, unmoved]

theorem unionOf_of_several {children : List Rule}
    (several : (children.flatMap members).length ≠ 1) :
    unionOf children = .union (directFirst (children.flatMap members)) := by
  rw [unionOf]
  split
  · rename_i single shape
    have length := (directFirst_perm (children.flatMap members)).length_eq
    rw [shape] at length
    exact absurd length.symm several
  · rfl

/-- The canonical union of any rules keeps their leaves, and it is canonical exactly if the
rules have a single member, which is canonical itself, or several members, none of which
is a union. -/
theorem unionOf_opens_one_level (children : List Rule) :
    (unionOf children).leaves.filter (!·.isDirect) =
        (leavesList children).filter (!·.isDirect) ∧
      (unionOf children).directCount = directCountList children ∧
        ((unionOf children).IsJoined ↔
          (∃ member, children.flatMap members = [member] ∧ member.IsJoined) ∨
            2 ≤ (children.flatMap members).length ∧
              ∀ member ∈ children.flatMap members, member.isUnion = false) := by
  refine ⟨filter_leaves_unionOf children, directCount_unionOf children, ?_⟩
  have moved := directFirst_perm (children.flatMap members)
  by_cases single : (children.flatMap members).length = 1
  · obtain ⟨member, shape⟩ := List.length_eq_one_iff.mp single
    rw [unionOf_of_single shape, shape]
    simp
  · rw [unionOf_of_several single]
    constructor
    · rintro ⟨several, flat, _⟩
      rw [moved.length_eq] at several
      exact .inr ⟨several, fun member listed => flat member (moved.mem_iff.mpr listed)⟩
    · rintro (⟨member, shape, _⟩ | ⟨several, flat⟩)
      · rw [shape] at single
        exact absurd rfl single
      · refine ⟨?_, ?_, head_directFirst⟩
        · rwa [moved.length_eq]
        · intro member listed
          exact flat member (moved.mem_iff.mp listed)

/-- A union in a union in a rule stays nested, and the direct assignment in it stays
behind; a union of one rule in a union stays around that rule. -/
theorem unionOf_nested_ne_canonical :
    (AllFilled [.computed "b", .union [.union [.direct, .computed "a"]]] ∧
        unionOf [.computed "b", .union [.union [.direct, .computed "a"]]] =
          .union [.computed "b", .union [.direct, .computed "a"]] ∧
        ¬(unionOf [.computed "b", .union [.union [.direct, .computed "a"]]]).IsJoined) ∧
      AllFilled [.union [.union [.computed "a"]]] ∧
        unionOf [.union [.union [.computed "a"]]] = .union [.computed "a"] ∧
        ¬(unionOf [.union [.union [.computed "a"]]]).IsJoined := by
  refine ⟨⟨by simp [AllFilled, IsFilled], by decide, ?_⟩, by simp [AllFilled, IsFilled],
    by decide, ?_⟩
  · intro joined
    have simple := joined.2.1 (.union [.direct, .computed "a"]) (by decide)
    cases simple
  · intro joined
    have several : 2 ≤ [Rule.computed "a"].length := joined.1
    simp at several

end Rebac.Rule
