import Rebac.Proofs.Document.Retraction
import Rebac.Proofs.Rule.Union

/-!
# Rules that documents spell

`Spells` says which values spell a rule, and with which leaves, from the shape of the
document alone.  The reader of rules accepts exactly these values.  However deep the
unions in a document are, it joins them into one rule that keeps every leaf, and no node
that it does not know is passed over.
-/

namespace Rebac

/-- Whether a rule joins some leaves: it keeps the direct assignments among them in number
and all others in order as well. -/
structure Rule.Gathers (rule : Rule) (leaves : List Rule) : Prop where
  joined : rule.IsJoined
  others : rule.leaves.filter (!·.isDirect) = leaves.filter (!·.isDirect)
  directs : rule.directCount = leaves.countP isDirect

theorem Rule.gathers_leaf {leaf : Rule} (simple : leaf.isUnion = false) :
    leaf.Gathers [leaf] := by
  have single := leaves_of_not_union simple
  exact ⟨isJoined_of_not_union simple, by rw [single],
    by rw [directCount_eq_countP, single]⟩

/-- The member of an object that has no other; all other values have none. -/
def Json.onlyMember? : Json → Option (String × Json)
  | .object [member] => some member
  | _ => none

theorem Json.onlyMember?_eq_some_iff {value : Json} {member : String × Json} :
    value.onlyMember? = some member ↔ value = .object [member] := by
  unfold onlyMember?
  split
  · simp
  · rename_i other
    constructor
    · intro none
      cases none
    · intro shape
      exact absurd shape (other member)

namespace Document

mutual

/-- The leaves of the rule that a value spells, in the order of the document. -/
inductive Spells : Json → List Rule → Prop where
  | direct {value inner : Json} :
      value.onlyMember? = some ("this", inner) →
      Spells value [.direct]
  | computed {value inner : Json} {relation : String} :
      value.onlyMember? = some ("computedUserset", inner) →
      inner.member? "relation" = some (.string relation) →
      Spells value [.computed relation]
  | through {value inner left right : Json} {tupleset relation : String} :
      value.onlyMember? = some ("tupleToUserset", inner) →
      inner.member? "tupleset" = some left →
      left.member? "relation" = some (.string tupleset) →
      inner.member? "computedUserset" = some right →
      right.member? "relation" = some (.string relation) →
      Spells value [.through tupleset relation]
  | union {value inner : Json} {children : List Json} {leaves : List Rule} :
      value.onlyMember? = some ("union", inner) →
      inner.member? "child" = some (.array children) →
      children ≠ [] →
      SpellAll children leaves →
      Spells value leaves

/-- List counterpart of `Document.Spells`. -/
inductive SpellAll : List Json → List Rule → Prop where
  | nil : SpellAll [] []
  | cons {child : Json} {children : List Json} {front back : List Rule} :
      Spells child front →
      SpellAll children back →
      SpellAll (child :: children) (front ++ back)

end

/-- The shapes of the nodes of rules. -/
def knownShapes : List String :=
  ["this", "computedUserset", "tupleToUserset", "union"]

/-- Nodes that are no part of any rule: values that are not objects, objects without
members or with several, unknown shapes, and unions without children.  The set operators
other than the union are among the unknown shapes. -/
inductive IsForeign (node : Json) : Prop where
  | shapeless : node.onlyMember? = none → IsForeign node
  | unknown {shape : String} {inner : Json} :
      node.onlyMember? = some (shape, inner) →
      shape ∉ knownShapes →
      IsForeign node
  | childless {inner : Json} :
      node.onlyMember? = some ("union", inner) →
      (∀ children, inner.member? "child" = some (.array children) → children = []) →
      IsForeign node

/-- The nodes of a rule: the value that spells it and, of a union, all nodes of its
children. -/
inductive IsNode (node : Json) : Json → Prop where
  | root : IsNode node node
  | child {value inner child : Json} {children : List Json} :
      value.onlyMember? = some ("union", inner) →
      inner.member? "child" = some (.array children) →
      child ∈ children →
      IsNode node child →
      IsNode node value

theorem sizeOf_children {value inner : Json} {children : List Json}
    (union : value.onlyMember? = some ("union", inner))
    (listed : inner.member? "child" = some (.array children)) :
    sizeOf children < sizeOf value := by
  have smaller := Json.sizeOf_member? listed
  rw [Json.array.sizeOf_spec] at smaller
  simp only [Json.onlyMember?_eq_some_iff.mp union, Json.object.sizeOf_spec,
    List.cons.sizeOf_spec, Prod.mk.sizeOf_spec]
  omega

theorem readRule_of_children {inner : Json} {children : List Json}
    (listed : inner.member? "child" = some (.array children)) (filled : children ≠ [])
    (place : Place) :
    readRule place (.object [("union", inner)]) =
      (readRules place children).map Rule.unionOf := by
  obtain ⟨child, children, rfl⟩ := List.exists_cons_of_ne_nil filled
  rw [readRule_union, listed]

theorem readRules_cons (place : Place) (child : Json) (children : List Json) :
    readRules place (child :: children) =
      readRule place child >>= fun rule => (readRules place children).map (rule :: ·) := by
  rw [readRules]
  cases readRule place child <;> rfl

theorem Spells.leaf_or_union {value : Json} {leaves : List Rule}
    (spells : Spells value leaves) :
    (∃ leaf : Rule, leaves = [leaf] ∧ leaf.isUnion = false ∧
        ∀ place, readRule place value = .ok leaf) ∨
      ∃ inner children, value.onlyMember? = some ("union", inner) ∧
        inner.member? "child" = some (.array children) ∧ children ≠ [] ∧
          SpellAll children leaves := by
  cases spells with
  | direct shape =>
      obtain rfl := Json.onlyMember?_eq_some_iff.mp shape
      refine .inl ⟨.direct, rfl, rfl, fun place => ?_⟩
      rw [readRule]
      rfl
  | @computed _ inner relation shape named =>
      obtain rfl := Json.onlyMember?_eq_some_iff.mp shape
      refine .inl ⟨.computed relation, rfl, rfl, fun place => ?_⟩
      rw [readRule]
      simp [readString, named, Except.map]
  | @through _ inner left right tupleset relation shape found leftNamed foundToo rightNamed =>
      obtain rfl := Json.onlyMember?_eq_some_iff.mp shape
      refine .inl ⟨.through tupleset relation, rfl, rfl, fun place => ?_⟩
      rw [readRule]
      simp [readReference, readString, found, leftNamed, foundToo, rightNamed, Except.map]
  | union shape listed filled spellAll => exact .inr ⟨_, _, shape, listed, filled, spellAll⟩

mutual

/-- A rule that is spelled is read, and nothing of it is lost. -/
theorem Spells.exists_rule {value : Json} {leaves : List Rule}
    (spells : Spells value leaves) (place : Place) :
    ∃ rule, readRule place value = .ok rule ∧ rule.Gathers leaves := by
  rcases spells.leaf_or_union with
    ⟨leaf, rfl, simple, read⟩ | ⟨inner, children, shape, listed, filled, spellAll⟩
  · exact ⟨leaf, read place, Rule.gathers_leaf simple⟩
  · obtain ⟨rules, read, length, joined, others, directs⟩ :=
      SpellAll.exists_rules spellAll place
    refine ⟨Rule.unionOf rules, ?_, ?_, ?_, ?_⟩
    · rw [Json.onlyMember?_eq_some_iff.mp shape, readRule_of_children listed filled, read]
      rfl
    · apply Rule.isJoined_unionOf _ joined
      rintro rfl
      exact filled (List.length_eq_zero_iff.mp length.symm)
    · rw [Rule.filter_leaves_unionOf, others]
    · rw [Rule.directCount_unionOf, directs]
termination_by sizeOf value
decreasing_by exact sizeOf_children shape listed

theorem SpellAll.exists_rules {values : List Json} {leaves : List Rule}
    (spellAll : SpellAll values leaves) (place : Place) :
    ∃ rules, readRules place values = .ok rules ∧ rules.length = values.length ∧
      (∀ rule ∈ rules, rule.IsJoined) ∧
        (Rule.leavesList rules).filter (!·.isDirect) = leaves.filter (!·.isDirect) ∧
          Rule.directCountList rules = leaves.countP Rule.isDirect := by
  cases spellAll with
  | nil =>
      refine ⟨[], ?_, rfl, by simp, rfl, rfl⟩
      rw [readRules]
  | cons spells spellRest =>
      obtain ⟨rule, read, gathers⟩ := Spells.exists_rule spells place
      obtain ⟨rules, readAll, length, joined, others, directs⟩ :=
        SpellAll.exists_rules spellRest place
      refine ⟨rule :: rules, ?_, by simp [length], ?_, ?_, ?_⟩
      · rw [readRules_cons, read]
        exact congrArg (Except.map (rule :: ·)) readAll
      · exact List.forall_mem_cons.mpr ⟨gathers.joined, joined⟩
      · rw [Rule.leavesList, List.filter_append, List.filter_append, gathers.others, others]
      · rw [Rule.directCountList, List.countP_append, gathers.directs, directs]
termination_by sizeOf values

end

theorem exists_of_readString {place : Place} {value : Json} {field text : String}
    (read : readString place value field = .ok text) :
    value.member? field = some (.string text) := by
  unfold readString at read
  split at read
  · rename_i found
    rw [found, Except.ok.inj read]
  · cases read
  · cases read

theorem exists_of_readReference {place : Place} {value : Json} {field text : String}
    (read : readReference place value field = .ok text) :
    ∃ inner, value.member? field = some inner ∧
      inner.member? "relation" = some (.string text) := by
  unfold readReference at read
  split at read
  · cases read
  · rename_i inner found
    exact ⟨inner, found, exists_of_readString read⟩

theorem spells_or_union_of_readRule {place : Place} {value : Json} {rule : Rule}
    (read : readRule place value = .ok rule) :
    (∃ leaf, Spells value [leaf]) ∨
      ∃ inner children rules, value.onlyMember? = some ("union", inner) ∧
        inner.member? "child" = some (.array children) ∧ children ≠ [] ∧
          readRules place children = .ok rules := by
  unfold readRule at read
  split at read
  · cases read
  · rename_i shape inner
    -- The shapes in the order in which the reader tries them.
    split at read
    · rename_i direct
      subst direct
      exact .inl ⟨_, .direct rfl⟩
    · split at read
      · rename_i computed
        subst computed
        obtain ⟨relation, named, _⟩ := map_eq_ok_iff.mp read
        exact .inl ⟨_, .computed rfl (exists_of_readString named)⟩
      · split at read
        · rename_i through
          subst through
          split at read
          · cases read
          · rename_i tupleset first
            obtain ⟨relation, second, _⟩ := map_eq_ok_iff.mp read
            obtain ⟨left, found, leftNamed⟩ := exists_of_readReference first
            obtain ⟨right, foundToo, rightNamed⟩ := exists_of_readReference second
            exact .inl ⟨_, .through rfl found leftNamed foundToo rightNamed⟩
        · split at read
          · rename_i union
            subst union
            split at read
            · cases read
            · rename_i child children listed
              split at read
              · cases read
              · rename_i first head
                obtain ⟨others, tail, _⟩ := map_eq_ok_iff.mp read
                refine .inr ⟨inner, child :: children, first :: others, rfl, listed,
                  by simp, ?_⟩
                rw [readRules, head, tail]
                rfl
            · cases read
          · split at read <;> cases read
  · cases read
  · cases read

mutual

theorem exists_spells {place : Place} {value : Json} {rule : Rule}
    (read : readRule place value = .ok rule) : ∃ leaves, Spells value leaves := by
  rcases spells_or_union_of_readRule read with
    ⟨leaf, spells⟩ | ⟨inner, children, rules, shape, listed, filled, readAll⟩
  · exact ⟨[leaf], spells⟩
  · obtain ⟨leaves, spellAll⟩ := exists_spellAll readAll
    exact ⟨leaves, .union shape listed filled spellAll⟩
termination_by sizeOf value
decreasing_by exact sizeOf_children shape listed

theorem exists_spellAll {place : Place} {values : List Json} {rules : List Rule}
    (read : readRules place values = .ok rules) : ∃ leaves, SpellAll values leaves := by
  cases values with
  | nil => exact ⟨[], .nil⟩
  | cons child children =>
      rw [readRules_cons] at read
      obtain ⟨rule, head, read⟩ := bind_eq_ok_iff.mp read
      obtain ⟨others, tail, _⟩ := map_eq_ok_iff.mp read
      obtain ⟨front, spells⟩ := exists_spells head
      obtain ⟨back, spellRest⟩ := exists_spellAll tail
      exact ⟨front ++ back, .cons spells spellRest⟩
termination_by sizeOf values

end

theorem Spells.exists_shape {value : Json} {leaves : List Rule}
    (spells : Spells value leaves) :
    ∃ shape inner, value.onlyMember? = some (shape, inner) ∧ shape ∈ knownShapes := by
  cases spells with
  | direct shape => exact ⟨_, _, shape, by decide⟩
  | computed shape _ => exact ⟨_, _, shape, by decide⟩
  | through shape _ _ _ _ => exact ⟨_, _, shape, by decide⟩
  | union shape _ _ _ => exact ⟨_, _, shape, by decide⟩

theorem Spells.exists_children {value inner : Json} {leaves : List Rule}
    (spells : Spells value leaves) (union : value.onlyMember? = some ("union", inner)) :
    ∃ children, inner.member? "child" = some (.array children) ∧ children ≠ [] ∧
      SpellAll children leaves := by
  cases spells with
  | union shape listed filled spellAll =>
      rw [union] at shape
      obtain ⟨_, rfl⟩ := Prod.mk.inj (Option.some.inj shape)
      exact ⟨_, listed, filled, spellAll⟩
  | direct shape => simp [union] at shape
  | computed shape _ => simp [union] at shape
  | through shape _ _ _ _ => simp [union] at shape

theorem Spells.not_isForeign {value : Json} {leaves : List Rule}
    (spells : Spells value leaves) : ¬IsForeign value := by
  obtain ⟨shape, inner, only, known⟩ := spells.exists_shape
  intro foreign
  cases foreign with
  | shapeless none =>
      rw [none] at only
      cases only
  | unknown onlyToo unknown =>
      rw [only] at onlyToo
      obtain ⟨rfl, _⟩ := Prod.mk.inj (Option.some.inj onlyToo)
      exact unknown known
  | childless union childless =>
      obtain ⟨children, listed, filled, _⟩ := spells.exists_children union
      exact filled (childless children listed)

theorem SpellAll.exists_of_mem {values : List Json} {leaves : List Rule}
    (spellAll : SpellAll values leaves) {child : Json} (member : child ∈ values) :
    ∃ leaves, Spells child leaves := by
  induction values generalizing leaves with
  | nil => cases member
  | cons first others induction =>
      cases spellAll with
      | cons spells spellRest =>
          rcases List.mem_cons.mp member with rfl | later
          · exact ⟨_, spells⟩
          · exact induction spellRest later

/-- Every node of a rule that is spelled spells a rule itself. -/
theorem IsNode.exists_spells {node value : Json} {leaves : List Rule}
    (isNode : IsNode node value) (spells : Spells value leaves) :
    ∃ leaves, Spells node leaves := by
  induction isNode generalizing leaves with
  | root => exact ⟨leaves, spells⟩
  | child union listed member _ induction =>
      obtain ⟨children, listedToo, _, spellAll⟩ := spells.exists_children union
      rw [listed] at listedToo
      obtain rfl := Json.array.inj (Option.some.inj listedToo)
      obtain ⟨inner, spellsChild⟩ := spellAll.exists_of_mem member
      exact induction spellsChild

/-- The reader of rules accepts exactly what spells a rule.  What it makes of it is a leaf
or one union of leaves, a direct assignment in front if there is any, which keeps the
direct assignments of the document in number and all other leaves in order.  Every value
with a foreign node is refused, wherever this node stands. -/
theorem readRule_keeps_leaves (place : Place) (value : Json) :
    ((∃ rule, readRule place value = .ok rule) ↔ ∃ leaves, Spells value leaves) ∧
      (∀ leaves, Spells value leaves →
        ∃ rule, readRule place value = .ok rule ∧ rule.IsJoined ∧
          rule.leaves.filter (!·.isDirect) = leaves.filter (!·.isDirect) ∧
            rule.directCount = leaves.countP Rule.isDirect) ∧
        ∀ node, IsNode node value → IsForeign node →
          ∃ error, readRule place value = .error error := by
  have spelled : ∀ leaves, Spells value leaves →
      ∃ rule, readRule place value = .ok rule ∧ rule.Gathers leaves :=
    fun _ spells => spells.exists_rule place
  refine ⟨⟨?_, ?_⟩, ?_, ?_⟩
  · rintro ⟨rule, read⟩
    exact exists_spells read
  · rintro ⟨leaves, spells⟩
    obtain ⟨rule, read, _⟩ := spelled leaves spells
    exact ⟨rule, read⟩
  · intro leaves spells
    obtain ⟨rule, read, joined, others, directs⟩ := spelled leaves spells
    exact ⟨rule, read, joined, others, directs⟩
  · intro node isNode foreign
    cases read : readRule place value with
    | error error => exact ⟨error, rfl⟩
    | ok rule =>
        obtain ⟨leaves, spells⟩ := exists_spells read
        obtain ⟨inner, spellsNode⟩ := isNode.exists_spells spells
        exact absurd foreign spellsNode.not_isForeign

/-- The node of a union. -/
def unionNode (children : List Json) : Json :=
  .object [("union", .object [("child", .array children)])]

/-- A union in a union with two direct assignments, and a set operator in the same place. -/
theorem readRule_keeps_leaves_nested :
    (Spells
        (unionNode [(Rule.computed "b").toJson,
          unionNode [Rule.direct.toJson, (Rule.through "p" "v").toJson, Rule.direct.toJson]])
        [.computed "b", .direct, .through "p" "v", .direct] ∧
      ∃ rule,
        readRule .model
            (unionNode [(Rule.computed "b").toJson,
              unionNode [Rule.direct.toJson, (Rule.through "p" "v").toJson,
                Rule.direct.toJson]]) = .ok rule ∧
          rule.IsJoined ∧
            rule.leaves.filter (!·.isDirect) = [.computed "b", .through "p" "v"] ∧
              rule.directCount = 2) ∧
      IsNode (.object [("intersection", .null)])
          (unionNode [(Rule.computed "b").toJson,
            unionNode [Rule.direct.toJson, .object [("intersection", .null)]]]) ∧
        IsForeign (.object [("intersection", .null)]) ∧
          ∃ error,
            readRule .model
              (unionNode [(Rule.computed "b").toJson,
                unionNode [Rule.direct.toJson, .object [("intersection", .null)]]]) =
              .error error := by
  have direct : Spells Rule.direct.toJson [.direct] := .direct rfl
  have through : Spells (Rule.through "p" "v").toJson [.through "p" "v"] :=
    .through rfl rfl rfl rfl rfl
  have inner : Spells
      (unionNode [Rule.direct.toJson, (Rule.through "p" "v").toJson, Rule.direct.toJson])
      [.direct, .through "p" "v", .direct] :=
    .union rfl rfl (by simp) (.cons direct (.cons through (.cons direct .nil)))
  have spells : Spells
      (unionNode [(Rule.computed "b").toJson,
        unionNode [Rule.direct.toJson, (Rule.through "p" "v").toJson, Rule.direct.toJson]])
      [.computed "b", .direct, .through "p" "v", .direct] :=
    .union rfl rfl (by simp) (.cons (.computed rfl rfl) (.cons inner .nil))
  have isNode : IsNode (.object [("intersection", .null)])
      (unionNode [(Rule.computed "b").toJson,
        unionNode [Rule.direct.toJson, .object [("intersection", .null)]]]) :=
    .child rfl rfl (.tail _ (.head _)) (.child rfl rfl (.tail _ (.head _)) .root)
  have foreign : IsForeign (.object [("intersection", .null)]) := .unknown rfl (by decide)
  exact ⟨⟨spells, (readRule_keeps_leaves .model _).2.1 _ spells⟩, isNode, foreign,
    (readRule_keeps_leaves .model _).2.2 _ isNode foreign⟩

end Document

end Rebac
