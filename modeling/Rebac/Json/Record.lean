import Rebac.Json.Skip

/-!
# Records in JSON text

A record is written as an object, or as the list of its values in the order of
its keys, of which those at the end may be left out.  It is first cut into its
members, so that values which nobody asks for are only skipped.
-/

namespace Rebac.Json

/-- The keys of a record, each with the text that starts with its value. -/
abbrev Record := List (String × List Char)

/-- Cut the members of an object, given the previous ones in reverse.  What
follows the object is returned with them. -/
def cutMembers (reversed : Record) (text : List Char) :
    Option (Record × List Char) :=
  match _key : readKey text with
  | .error _ => none
  | .ok (key, value) =>
      match _value : skipValue value with
      | none => none
      | some after =>
          let reversed := (key, value) :: reversed
          match _next : Text.skipGap after with
          | '\x7d' :: rest => some (reversed.reverse, rest)
          | ',' :: next => cutMembers reversed (Text.skipGap next)
          | _ => none
termination_by text.length
decreasing_by
  have keyed := length_of_readKey _key
  have skipped := length_of_skipValue _value
  have outside := Text.length_lt_of_skipGap _next
  have gap := Text.length_skipGap_le next
  omega

/-- Cut the items of a list, which belong to keys in their order.  There is no
item beyond the last key. -/
def cutItems (text : List Char) : List String → Option (Record × List Char)
  | [] => none
  | key :: keys => do
      let after ← skipValue text
      match Text.skipGap after with
      | ']' :: rest => some ([(key, text)], rest)
      | ',' :: next =>
          (cutItems next keys).map fun (record, rest) => ((key, text) :: record, rest)
      | _ => none

/-- Cut a record that may start with blanks. -/
def cutRecord (keys : List String) (text : List Char) :
    Option (Record × List Char) :=
  match Text.skipGap text with
  | '\x7b' :: inner =>
      match Text.skipGap inner with
      | '\x7d' :: rest => some ([], rest)
      | first => cutMembers [] first
  | '[' :: inner =>
      match Text.skipGap inner with
      | ']' :: rest => some ([], rest)
      | first => cutItems first keys
  | _ => none

/-- The record that a text starts with.  None of its keys may be repeated. -/
def readRecord (keys : List String) (text : List Char) :
    Option (Record × List Char) :=
  (cutRecord keys text).filter fun (record, _) =>
    keys.all fun key => (record.map (·.1)).count key ≤ 1

/-- The text that starts with the value of a key. -/
def Record.textOf? (record : Record) (key : String) : Option (List Char) :=
  (record.find? fun member => member.1 = key).map (·.2)

/-- The value that a text starts with, in which a number of levels may nest. -/
def readWithin? (levels : Nat) (text : List Char) : Option Json :=
  match readFirst levels text with
  | .error _ => none
  | .ok (value, _) => some value.collapse

end Rebac.Json
