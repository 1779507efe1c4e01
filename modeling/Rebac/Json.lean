import Rebac.Number.Binary64

/-!
# JSON values

Objects keep their members in order and name each of them once: a member that
is put again keeps its place and takes the new value.  Integers are exact as
far as 64 bits reach; all other numbers are binary64.
-/

namespace Rebac

/-- Numbers of JSON texts. -/
inductive JsonNumber where
  | natural (value : Nat)
  /-- A negative integer, by its magnitude. -/
  | negative (magnitude : Nat)
  | real (isNegative : Bool) (magnitude : Binary64)
  deriving Repr, DecidableEq

inductive Json where
  | null
  | bool (value : Bool)
  | number (value : JsonNumber)
  | string (value : String)
  | array (items : List Json)
  | object (members : List (String × Json))
  deriving Repr

namespace Json

instance : Inhabited Json :=
  ⟨.null⟩

/-- Put a member into the members of an object. -/
def put (key : String) (value : Json) :
    List (String × Json) → List (String × Json)
  | [] => [(key, value)]
  | (other, old) :: members =>
      if other = key then (key, value) :: members
      else (other, old) :: put key value members

/-- The object that results from putting members one after the other. -/
def ofMembers (members : List (String × Json)) : Json :=
  .object (members.foldl (fun object member => put member.1 member.2 object) [])

mutual

/-- Collapse members that share a key, at every depth. -/
def collapse : Json → Json
  | .array items => .array (collapseItems items)
  | .object members => .ofMembers (collapseMembers members)
  | value => value

/-- List counterpart of `Json.collapse`. -/
def collapseItems : List Json → List Json
  | [] => []
  | item :: items => item.collapse :: collapseItems items

/-- Member counterpart of `Json.collapse`. -/
def collapseMembers : List (String × Json) → List (String × Json)
  | [] => []
  | (key, value) :: members => (key, value.collapse) :: collapseMembers members

end

def find? (key : String) : List (String × Json) → Option Json
  | [] => none
  | (other, value) :: members =>
      if other = key then some value else find? key members

/-- A member of an object; values of other kinds have none. -/
def member? (value : Json) (key : String) : Option Json :=
  match value with
  | .object members => find? key members
  | _ => none

/-- A record as an object.  Its values may also be listed in the order of its
keys, without those at the end. -/
def named? (keys : List String) : Json → Option Json
  | .object members => some (.object members)
  | .array items =>
      if items.length ≤ keys.length then some (.object (keys.zip items)) else none
  | _ => none

def isNull : Json → Bool
  | .null => true
  | _ => false

/-- A member that is present and not null. -/
def filledMember? (value : Json) (key : String) : Option Json :=
  (value.member? key).filter (!·.isNull)

def ofText (text : List Char) : Json :=
  .string (String.ofList text)

theorem find?_put_self (key : String) (value : Json)
    (members : List (String × Json)) :
    find? key (put key value members) = some value := by
  induction members with
  | nil => simp [put, find?]
  | cons member members induction =>
      obtain ⟨other, old⟩ := member
      by_cases same : other = key
      · simp [put, find?, same]
      · simp [put, find?, same, induction]

theorem find?_put_other {key other : String} (distinct : other ≠ key)
    (value : Json) (members : List (String × Json)) :
    find? other (put key value members) = find? other members := by
  induction members with
  | nil => simp [put, find?, Ne.symm distinct]
  | cons member members induction =>
      obtain ⟨name, old⟩ := member
      by_cases same : name = key
      · subst same
        simp [put, find?, Ne.symm distinct]
      · simp only [put, same, if_false, find?, induction]

end Json

end Rebac
