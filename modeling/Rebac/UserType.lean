/-!
# Direct user types

A relation that can be assigned directly lists who may be assigned: the users
of a type, the users in a relation of a type, or every user of a type at once,
each possibly under a condition.
-/

namespace Rebac

structure UserType where
  typeName : String
  relation : Option String
  wildcard : Bool
  condition : Option String
  deriving Repr, DecidableEq, Inhabited

namespace UserType

/-- The users of a type, without qualification. -/
def plain (typeName : String) : UserType :=
  { typeName, relation := none, wildcard := false, condition := none }

/-- Whether an entry stands for objects of its type rather than for a set of
users. -/
def isPlain (entry : UserType) : Bool :=
  entry.relation.isNone && !entry.wildcard

/-- The written form: `type`, `type#relation` or `type:*`, and the condition
after `with`. -/
def toText (entry : UserType) : List Char :=
  let subject :=
    match entry.relation with
    | some relation => entry.typeName.toList ++ '#' :: relation.toList
    | none =>
        if entry.wildcard then entry.typeName.toList ++ [':', '*']
        else entry.typeName.toList
  match entry.condition with
  | some condition => subject ++ " with ".toList ++ condition.toList
  | none => subject

instance : ToString UserType :=
  ⟨fun entry => String.ofList entry.toText⟩

end UserType

end Rebac
