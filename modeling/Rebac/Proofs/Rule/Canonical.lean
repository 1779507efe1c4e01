import Rebac.Rule

/-!
# Canonical unions

A canonical rule has no union inside a union, no union around fewer than two
rules, and a direct assignment only in front.  Such a rule is the canonical
union of its own leaves, and the canonical union of any leaves is canonical
as long as at most one of them is a direct assignment.  Without this bound the
canonical union is joined: further direct assignments may stand behind the
first one.
-/

namespace Rebac.Rule

/-- Unions are flat, join at least two rules and start with their direct
assignment. -/
def IsCanonical : Rule → Prop
  | .union children =>
      2 ≤ children.length ∧
        (∀ child ∈ children, child.isUnion = false) ∧
          ∀ child ∈ children.tail, child.isDirect = false
  | _ => True

/-- Unions are flat, join at least two rules and start with a direct assignment if
they have any. -/
def IsJoined : Rule → Prop
  | .union children =>
      2 ≤ children.length ∧
        (∀ child ∈ children, child.isUnion = false) ∧
          (.direct ∈ children → children.head? = some .direct)
  | _ => True

mutual

/-- No union is empty. -/
def IsFilled : Rule → Prop
  | .union children => children ≠ [] ∧ AllFilled children
  | _ => True

/-- List counterpart of `Rule.IsFilled`. -/
def AllFilled : List Rule → Prop
  | [] => True
  | rule :: rules => rule.IsFilled ∧ AllFilled rules

end

theorem isDirect_eq_true_iff {rule : Rule} : rule.isDirect = true ↔ rule = .direct := by
  cases rule <;> simp [isDirect]

theorem leaves_of_not_union {rule : Rule} (simple : rule.isUnion = false) :
    rule.leaves = [rule] := by
  cases rule with
  | union children => simp [isUnion] at simple
  | _ => rfl

theorem members_of_not_union {rule : Rule} (simple : rule.isUnion = false) :
    rule.members = [rule] := by
  cases rule with
  | union children => simp [isUnion] at simple
  | _ => rfl

theorem isJoined_of_not_union {rule : Rule} (simple : rule.isUnion = false) :
    rule.IsJoined := by
  cases rule with
  | union children => simp [isUnion] at simple
  | _ => trivial

theorem not_union_of_mem_members {rule member : Rule} (joined : rule.IsJoined)
    (listed : member ∈ rule.members) : member.isUnion = false := by
  cases rule with
  | union children => exact joined.2.1 member listed
  | _ =>
      obtain rfl := List.mem_singleton.mp listed
      rfl

theorem members_ne_nil {rule : Rule} (joined : rule.IsJoined) : rule.members ≠ [] := by
  cases rule with
  | union children =>
      rintro rfl
      exact absurd joined.1 (by simp)
  | _ => simp [members]

theorem leavesList_of_flat {rules : List Rule}
    (flat : ∀ rule ∈ rules, rule.isUnion = false) : leavesList rules = rules := by
  induction rules with
  | nil => rfl
  | cons rule rules induction =>
      have head := leaves_of_not_union (flat rule (by simp))
      have tail := induction fun other member => flat other (by simp [member])
      simp [leavesList, head, tail]

theorem flatMap_members_of_flat {rules : List Rule}
    (flat : ∀ rule ∈ rules, rule.isUnion = false) : rules.flatMap members = rules := by
  induction rules with
  | nil => rfl
  | cons rule rules induction =>
      have head := members_of_not_union (flat rule (by simp))
      have tail := induction fun other member => flat other (by simp [member])
      simp [head, tail]

mutual

theorem not_union_of_mem_leaves {rule leaf : Rule} (member : leaf ∈ rule.leaves) :
    leaf.isUnion = false := by
  cases rule with
  | direct =>
      obtain rfl : leaf = .direct := by simpa [leaves] using member
      rfl
  | computed relation =>
      obtain rfl : leaf = .computed relation := by simpa [leaves] using member
      rfl
  | through tupleset relation =>
      obtain rfl : leaf = .through tupleset relation := by
        simpa [leaves] using member
      rfl
  | union children =>
      exact not_union_of_mem_leavesList (by simpa [leaves] using member)

theorem not_union_of_mem_leavesList {rules : List Rule} {leaf : Rule}
    (member : leaf ∈ leavesList rules) : leaf.isUnion = false := by
  cases rules with
  | nil => simp [leavesList] at member
  | cons rule rules =>
      rcases List.mem_append.mp (by simpa [leavesList] using member) with
        inHead | inTail
      · exact not_union_of_mem_leaves inHead
      · exact not_union_of_mem_leavesList inTail

end

mutual

theorem directCount_eq_countP (rule : Rule) :
    rule.directCount = rule.leaves.countP isDirect := by
  cases rule with
  | union children =>
      simpa [directCount, leaves] using directCountList_eq_countP children
  | _ => rfl

theorem directCountList_eq_countP (rules : List Rule) :
    directCountList rules = (leavesList rules).countP isDirect := by
  cases rules with
  | nil => rfl
  | cons rule rules =>
      simp [directCountList, leavesList, directCount_eq_countP rule,
        directCountList_eq_countP rules]

end

/-- The rule that some leaves make up: the leaf itself if it is the only one, and
otherwise the union of them in order, with direct assignments in front. -/
def ofLeaves (leaves : List Rule) : Rule :=
  match leaves.filter isDirect ++ leaves.filter (!·.isDirect) with
  | [leaf] => leaf
  | ordered => .union ordered

theorem directFirst_perm (rules : List Rule) : (directFirst rules).Perm rules := by
  unfold directFirst
  split
  · rename_i found
    obtain ⟨leaf, member, direct⟩ := List.any_eq_true.mp found
    obtain ⟨first, before, after, _, firstDirect, split, erased⟩ :=
      List.exists_of_eraseP member direct
    rw [erased, split, isDirect_eq_true_iff.mp firstDirect]
    exact List.perm_middle.symm
  · exact List.Perm.refl rules

theorem directFirst_of_head {rules : List Rule}
    (front : .direct ∈ rules → rules.head? = some .direct) : directFirst rules = rules := by
  unfold directFirst
  split
  · rename_i found
    obtain ⟨rule, member, direct⟩ := List.any_eq_true.mp found
    rw [isDirect_eq_true_iff.mp direct] at member
    obtain ⟨others, rfl⟩ := List.head?_eq_some_iff.mp (front member)
    rw [List.eraseP_cons_of_pos rfl]
  · rfl

/-- A single direct assignment moves to the front, and the others keep their order. -/
theorem directFirst_eq_filter {rules : List Rule} (single : rules.countP isDirect ≤ 1) :
    directFirst rules = rules.filter isDirect ++ rules.filter (!·.isDirect) := by
  have unmoved : ∀ {others : List Rule}, others.countP isDirect = 0 →
      others.filter isDirect = [] ∧ others.filter (!·.isDirect) = others := by
    intro others none
    have absent := List.countP_eq_zero.mp none
    refine ⟨List.filter_eq_nil_iff.mpr absent, List.filter_eq_self.mpr ?_⟩
    intro rule member
    simpa using absent rule member
  unfold directFirst
  by_cases found : rules.any isDirect = true
  · rw [if_pos found]
    obtain ⟨rule, member, direct⟩ := List.any_eq_true.mp found
    obtain ⟨first, before, after, absent, firstDirect, split, erased⟩ :=
      List.exists_of_eraseP member direct
    have beforeNone : before.countP isDirect = 0 := List.countP_eq_zero.mpr absent
    have afterNone : after.countP isDirect = 0 := by
      rw [split, List.countP_append, List.countP_cons_of_pos firstDirect] at single
      omega
    obtain rfl := isDirect_eq_true_iff.mp firstDirect
    rw [erased, split, List.filter_append, List.filter_append,
      List.filter_cons_of_pos firstDirect, List.filter_cons_of_neg (by simp [isDirect]),
      (unmoved beforeNone).1, (unmoved beforeNone).2, (unmoved afterNone).1,
      (unmoved afterNone).2, List.nil_append, List.singleton_append]
  · have none : rules.countP isDirect = 0 :=
      List.countP_eq_zero.mpr (List.any_eq_false.mp (Bool.eq_false_iff.mpr found))
    rw [if_neg found, (unmoved none).1, (unmoved none).2, List.nil_append]

theorem head_directFirst {rules : List Rule} (member : .direct ∈ directFirst rules) :
    (directFirst rules).head? = some .direct := by
  unfold directFirst at member ⊢
  split at member
  · rename_i found
    rw [if_pos found]
    rfl
  · rename_i missing
    exact absurd (List.any_eq_true.mpr ⟨_, member, rfl⟩) missing

theorem not_direct_of_mem_tail_directFirst {rules : List Rule}
    (single : rules.countP isDirect ≤ 1) {rule : Rule}
    (member : rule ∈ (directFirst rules).tail) : rule.isDirect = false := by
  have count : (directFirst rules).countP isDirect ≤ 1 := by
    rw [(directFirst_perm rules).countP_eq]
    exact single
  unfold directFirst at member count
  split at member
  · rename_i found
    rw [if_pos found, List.countP_cons_of_pos rfl] at count
    have none : (rules.eraseP isDirect).countP isDirect = 0 := by omega
    have absent := List.countP_eq_zero.mp none rule (by simpa using member)
    simpa using absent
  · rename_i missing
    have absent : rules.any isDirect = false := by simpa using missing
    have each := List.any_eq_false.mp absent rule (List.mem_of_mem_tail member)
    simpa using each

/-- The canonical union of leaves is the rule that they make up, as long as at most one
of them is a direct assignment. -/
theorem unionOf_eq_ofLeaves {leaves : List Rule}
    (flat : ∀ leaf ∈ leaves, leaf.isUnion = false)
    (single : leaves.countP isDirect ≤ 1) : unionOf leaves = ofLeaves leaves := by
  have ordered : directFirst (leaves.flatMap members) =
      leaves.filter isDirect ++ leaves.filter (!·.isDirect) := by
    rw [flatMap_members_of_flat flat, directFirst_eq_filter single]
  unfold unionOf ofLeaves
  cases shape : leaves.filter isDirect ++ leaves.filter (!·.isDirect) with
  | nil => simp only [ordered, shape]
  | cons first others =>
      cases others with
      | nil => simp only [ordered, shape]
      | cons second others => simp only [ordered, shape]

/-- The leaves of a canonical union are its rules, reordered. -/
theorem leaves_unionOf {rules : List Rule}
    (flat : ∀ rule ∈ rules, rule.isUnion = false) :
    (unionOf rules).leaves = directFirst rules := by
  have flat' : ∀ rule ∈ directFirst rules, rule.isUnion = false := by
    intro rule member
    exact flat rule ((directFirst_perm rules).mem_iff.mp member)
  rw [unionOf, flatMap_members_of_flat flat]
  split
  · rename_i single shape
    rw [shape] at flat'
    rw [shape, leaves_of_not_union (flat' single (by simp))]
  · rw [leaves, leavesList_of_flat flat']

theorem isJoined_of_isCanonical {rule : Rule} (canonical : rule.IsCanonical) :
    rule.IsJoined := by
  cases rule with
  | union children =>
      obtain ⟨several, flat, behind⟩ := canonical
      refine ⟨several, flat, fun member => ?_⟩
      cases children with
      | nil => cases member
      | cons first others =>
          rcases List.mem_cons.mp member with rfl | later
          · rfl
          · cases behind .direct later
  | _ => trivial

theorem isJoined_unionOf {rules : List Rule} (filled : rules ≠ [])
    (joined : ∀ rule ∈ rules, rule.IsJoined) : (unionOf rules).IsJoined := by
  have flat : ∀ rule ∈ directFirst (rules.flatMap members), rule.isUnion = false := by
    intro rule member
    obtain ⟨source, inRules, listed⟩ :=
      List.mem_flatMap.mp ((directFirst_perm _).mem_iff.mp member)
    exact not_union_of_mem_members (joined source inRules) listed
  have nonempty : directFirst (rules.flatMap members) ≠ [] := by
    obtain ⟨first, others, rfl⟩ := List.exists_cons_of_ne_nil filled
    obtain ⟨member, listed⟩ :=
      List.exists_mem_of_ne_nil _ (members_ne_nil (joined first (by simp)))
    apply List.ne_nil_of_mem
    exact (directFirst_perm _).mem_iff.mpr (List.mem_flatMap.mpr ⟨first, by simp, listed⟩)
  rw [unionOf]
  split
  · rename_i single shape
    rw [shape] at flat
    exact isJoined_of_not_union (flat single (by simp))
  · rename_i several
    refine ⟨?_, flat, head_directFirst⟩
    match shape : directFirst (rules.flatMap members) with
    | [] => exact absurd shape nonempty
    | [rule] => exact absurd shape (several rule)
    | _ :: _ :: _ => simp

theorem isCanonical_unionOf {rules : List Rule} (filled : rules ≠ [])
    (flat : ∀ rule ∈ rules, rule.isUnion = false)
    (single : rules.countP isDirect ≤ 1) : (unionOf rules).IsCanonical := by
  have joined : (unionOf rules).IsJoined :=
    isJoined_unionOf filled fun rule member => isJoined_of_not_union (flat rule member)
  have leaves := leaves_unionOf flat
  cases shape : unionOf rules with
  | union children =>
      rw [shape] at joined leaves
      obtain ⟨several, flatChildren, _⟩ := joined
      rw [Rule.leaves, leavesList_of_flat flatChildren] at leaves
      refine ⟨several, flatChildren, fun child member => ?_⟩
      rw [leaves] at member
      exact not_direct_of_mem_tail_directFirst single member
  | _ => trivial

/-- A joined rule is the canonical union of its leaves. -/
theorem unionOf_leaves {rule : Rule} (joined : rule.IsJoined) :
    unionOf rule.leaves = rule := by
  cases rule with
  | union children =>
      obtain ⟨several, flat, front⟩ := joined
      rw [leaves, leavesList_of_flat flat, unionOf,
        flatMap_members_of_flat flat, directFirst_of_head front]
      match children with
      | first :: second :: rest => rfl
  | _ => rfl

theorem isFilled_of_isCanonical {rule : Rule} (canonical : rule.IsCanonical) :
    rule.IsFilled := by
  have filledList : ∀ rules : List Rule,
      (∀ child ∈ rules, child.isUnion = false) → AllFilled rules := by
    intro rules flat
    induction rules with
    | nil => trivial
    | cons child rules induction =>
        have simple := flat child (by simp)
        refine ⟨?_, induction fun other member => flat other (by simp [member])⟩
        cases child with
        | union children => simp [isUnion] at simple
        | _ => trivial
  cases rule with
  | union children =>
      obtain ⟨several, flat, _⟩ := canonical
      refine ⟨?_, filledList children flat⟩
      rintro rfl
      simp at several
  | _ => trivial

theorem leaves_ne_nil_of_isFilled {rule : Rule} (filled : rule.IsFilled) :
    rule.leaves ≠ [] := by
  match rule, filled with
  | .direct, _ => simp [leaves]
  | .computed _, _ => simp [leaves]
  | .through _ _, _ => simp [leaves]
  | .union [], filled => exact absurd rfl filled.1
  | .union (child :: children), filled =>
      have head := leaves_ne_nil_of_isFilled filled.2.1
      simp [leaves, leavesList, head]

end Rebac.Rule
