/-!
# Relation rules

A rule says who stands in a relation: whoever a tuple names directly,
whoever stands in another relation of the same object, whoever stands in a
relation of an object reached through a tupleset, or a union of these.  The
smart constructor `Rule.unionOf` builds unions in canonical form: flat, with
a direct assignment first, and never around a single member.
-/

namespace Rebac

inductive Rule where
  | direct
  | computed (relation : String)
  | through (tupleset relation : String)
  | union (children : List Rule)
  deriving Repr, Inhabited

namespace Rule

mutual

/-- Equality as a test. -/
def same : Rule → Rule → Bool
  | .direct, .direct => true
  | .computed left, .computed right => left == right
  | .through tupleset relation, .through tupleset' relation' =>
      tupleset == tupleset' && relation == relation'
  | .union left, .union right => sameList left right
  | _, _ => false

/-- List counterpart of `Rule.same`. -/
def sameList : List Rule → List Rule → Bool
  | [], [] => true
  | left :: lefts, right :: rights => same left right && sameList lefts rights
  | _, _ => false

end

mutual

theorem same_refl (rule : Rule) : same rule rule = true := by
  cases rule with
  | direct => rfl
  | computed relation => simp [same]
  | through tupleset relation => simp [same]
  | union children => simpa [same] using sameList_refl children

theorem sameList_refl (rules : List Rule) :
    sameList rules rules = true := by
  cases rules with
  | nil => rfl
  | cons rule rules =>
      simp [sameList, same_refl rule, sameList_refl rules]

end

mutual

theorem eq_of_same {left right : Rule} (equal : same left right = true) :
    left = right := by
  cases left <;> cases right <;> simp_all [same]
  exact eq_of_sameList equal

theorem eq_of_sameList {lefts rights : List Rule}
    (equal : sameList lefts rights = true) : lefts = rights := by
  cases lefts with
  | nil => cases rights <;> simp_all [sameList]
  | cons left lefts =>
      cases rights with
      | nil => simp [sameList] at equal
      | cons right rights =>
          simp only [sameList, Bool.and_eq_true] at equal
          rw [eq_of_same equal.1, eq_of_sameList equal.2]

end

theorem same_iff {left right : Rule} : same left right = true ↔ left = right :=
  ⟨eq_of_same, fun equal => equal ▸ same_refl left⟩

instance : DecidableEq Rule :=
  fun _ _ => decidable_of_iff _ same_iff

def isDirect : Rule → Bool
  | .direct => true
  | _ => false

def isUnion : Rule → Bool
  | .union _ => true
  | _ => false

/-- What a rule contributes to a union around it. -/
def members : Rule → List Rule
  | .union children => children
  | rule => [rule]

/-- Move the first direct assignment, if there is one, to the front. -/
def directFirst (rules : List Rule) : List Rule :=
  if rules.any isDirect then .direct :: rules.eraseP isDirect else rules

/-- The canonical union of some rules. -/
def unionOf (children : List Rule) : Rule :=
  match directFirst (children.flatMap members) with
  | [single] => single
  | several => .union several

mutual

/-- Number of direct assignments anywhere in a rule. -/
def directCount : Rule → Nat
  | .direct => 1
  | .computed _ => 0
  | .through _ _ => 0
  | .union children => directCountList children

/-- List counterpart of `Rule.directCount`. -/
def directCountList : List Rule → Nat
  | [] => 0
  | rule :: rules => rule.directCount + directCountList rules

end

def hasDirect (rule : Rule) : Bool :=
  0 < rule.directCount

mutual

/-- The rules that are no unions, from left to right. -/
def leaves : Rule → List Rule
  | .union children => leavesList children
  | rule => [rule]

/-- List counterpart of `Rule.leaves`. -/
def leavesList : List Rule → List Rule
  | [] => []
  | rule :: rules => rule.leaves ++ leavesList rules

end

mutual

/-- The relations of the same type that a rule refers to, from left to
right. -/
def references : Rule → List String
  | .direct => []
  | .computed relation => [relation]
  | .through _ _ => []
  | .union children => referencesList children

/-- List counterpart of `Rule.references`. -/
def referencesList : List Rule → List String
  | [] => []
  | rule :: rules => rule.references ++ referencesList rules

end

end Rule

end Rebac
