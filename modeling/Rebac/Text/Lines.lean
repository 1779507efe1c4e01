/-!
# Lines and fields of a text

A line ends at a line feed, and one carriage return right before it belongs to
the line break.  Whatever follows the last line feed is a line of its own
unless it is empty.  Fields are what stands between separators.
-/

namespace Rebac.Text

/-- Remove the carriage return that ends a reversed line. -/
def dropReturn : List Char → List Char
  | '\r' :: reversed => reversed
  | reversed => reversed

/-- `linesFrom reversed text` has already read the start of a line, which it
holds in reverse. -/
def linesFrom (reversed : List Char) : List Char → List (List Char)
  | [] => if reversed.isEmpty then [] else [reversed.reverse]
  | '\n' :: rest => (dropReturn reversed).reverse :: linesFrom [] rest
  | character :: rest => linesFrom (character :: reversed) rest

/-- The lines of a text, without their line breaks. -/
def lines (text : List Char) : List (List Char) :=
  linesFrom [] text

/-- The parts before and after the first occurrence of a separator. -/
def splitOnce (separator : Char) : List Char → Option (List Char × List Char)
  | [] => none
  | character :: rest =>
      if character = separator then some ([], rest)
      else (splitOnce separator rest).map fun (before, after) =>
        (character :: before, after)

theorem splitOnce_eq_none_iff {separator : Char} {text : List Char} :
    splitOnce separator text = none ↔ separator ∉ text := by
  induction text with
  | nil => simp [splitOnce]
  | cons character rest induction =>
      by_cases same : character = separator
      · simp [splitOnce, same]
      · simp [splitOnce, same, induction, Ne.symm same]

theorem append_of_splitOnce {separator : Char} {text before after : List Char}
    (split : splitOnce separator text = some (before, after)) :
    text = before ++ separator :: after := by
  induction text generalizing before with
  | nil => simp [splitOnce] at split
  | cons character rest induction =>
      by_cases same : character = separator
      · simp [splitOnce, same] at split
        obtain ⟨rfl, rfl⟩ := split
        simp [same]
      · simp only [splitOnce, same, if_false, Option.map_eq_some_iff] at split
        obtain ⟨⟨left, right⟩, found, equal⟩ := split
        simp only [Prod.mk.injEq] at equal
        obtain ⟨rfl, rfl⟩ := equal
        simp [induction found]

/-- Number of bytes that a text takes in UTF-8. -/
def byteSize (text : List Char) : Nat :=
  text.foldr (fun character size => character.utf8Size + size) 0

end Rebac.Text
