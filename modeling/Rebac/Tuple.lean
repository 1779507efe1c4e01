import Rebac.Json.Record
import Rebac.Json.Writer

/-!
# Relationship tuples

A tuple states that a user stands in a relation to an object, possibly under a
condition with some of its parameters filled in.  Users and objects are
written `type:id`; loosely typed ones get their type in front.
-/

namespace Rebac

namespace Tuple

/-- The user type assumed when none is suggested. -/
def defaultUserType : String := "user"

/-- Put a type in front of a user that names neither a type nor a set of
users. -/
def formatUser (user : String) (suggestedType : Option String) : String :=
  if user.toList.contains ':' || user.toList.contains '#' then user
  else suggestedType.getD defaultUserType ++ ":" ++ user

/-- Put a type in front of an object that names none. -/
def formatObject (object objectType : String) : String :=
  if object.toList.contains ':' then object
  else objectType ++ ":" ++ object

end Tuple

/-- An object by its type and its id, which may contain colons. -/
structure TupleObject where
  type : String
  id : String
  deriving Repr, DecidableEq

namespace TupleObject

/-- Split at the first colon; a text without one is all type. -/
def ofText (text : List Char) : TupleObject :=
  match Text.splitOnce ':' text with
  | some (type, id) => { type := String.ofList type, id := String.ofList id }
  | none => { type := String.ofList text, id := "" }

def toText (object : TupleObject) : List Char :=
  object.type.toList ++ ':' :: object.id.toList

/-- Splitting a text that has a colon and joining the parts gives it back. -/
theorem toText_ofText {text : List Char} (typed : ':' ∈ text) :
    (ofText text).toText = text := by
  unfold ofText
  split
  · rename_i type id split
    simp [toText, Text.append_of_splitOnce split]
  · rename_i split
    exact absurd typed (Text.splitOnce_eq_none_iff.mp split)

end TupleObject

structure TupleCondition where
  name : String
  /-- The parameters known when the tuple is written, in order. -/
  context : List (String × Json)
  deriving Repr

structure Tuple where
  user : String
  relation : String
  object : String
  condition : Option TupleCondition
  deriving Repr

namespace Tuple

def conditionJson (condition : TupleCondition) : Json :=
  .object
    (("name", .string condition.name) ::
      if condition.context.isEmpty then []
      else [("context", .object condition.context)])

def toJson (tuple : Tuple) : Json :=
  .object
    ([("user", .string tuple.user), ("relation", .string tuple.relation),
      ("object", .string tuple.object)] ++
      (tuple.condition.map fun condition =>
        ("condition", conditionJson condition)).toList)

/-- How deep values may nest in the records of a tuple. -/
def innerDepth : Nat := Json.maximalDepth - 1

/-- The string that a record has for a key. -/
def string? (levels : Nat) (record : Json.Record) (key : String) : Option String := do
  match ← Json.readWithin? levels (← record.textOf? key) with
  | .string text => some text
  | _ => none

def conditionKeys : List String :=
  ["name", "context"]

/-- Read the condition that a text starts with. -/
def readCondition? (text : List Char) : Option TupleCondition := do
  let levels := innerDepth - 1
  let (record, _) ← Json.readRecord conditionKeys text
  let name ← string? levels record "name"
  match record.textOf? "context" with
  | none => some { name, context := [] }
  | some text =>
      match ← Json.readWithin? levels text with
      | .object context => some { name, context }
      | _ => none

/-- Read the condition that a text starts with, which may be null. -/
def readOptionalCondition? (text : List Char) : Option (Option TupleCondition) :=
  match Json.readWithin? innerDepth text with
  | some .null => some none
  | _ => (readCondition? text).map some

def keys : List String :=
  ["user", "relation", "object", "condition"]

/-- The tuple of a record. -/
def ofRecord? (record : Json.Record) : Option Tuple := do
  let user ← string? innerDepth record "user"
  let relation ← string? innerDepth record "relation"
  let object ← string? innerDepth record "object"
  match record.textOf? "condition" with
  | none => some { user, relation, object, condition := none }
  | some text =>
      let condition ← readOptionalCondition? text
      some { user, relation, object, condition }

/-- Read a text that holds exactly one tuple.  Unknown members are skipped, but
no known one may be repeated. -/
def read? (text : List Char) : Option Tuple := do
  let (record, rest) ← Json.readRecord keys text
  if (Text.skipGap rest).isEmpty then ofRecord? record else none

end Tuple

end Rebac
