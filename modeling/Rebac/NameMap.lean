/-!
# Maps from names

A map lists its entries in the order of their names, character by character,
and names each of them once.  Inserting under a known name replaces the entry.
-/

namespace Rebac

abbrev NameMap (α : Type) := List (String × α)

namespace NameMap

variable {α : Type}

def insert (name : String) (value : α) : NameMap α → NameMap α
  | [] => [(name, value)]
  | (other, old) :: entries =>
      if name = other then (name, value) :: entries
      else if name < other then (name, value) :: (other, old) :: entries
      else (other, old) :: insert name value entries

def find? (name : String) : NameMap α → Option α
  | [] => none
  | (other, value) :: entries =>
      if other = name then some value else find? name entries

/-- The map that results from inserting entries one after the other. -/
def ofEntries (entries : List (String × α)) : NameMap α :=
  entries.foldl (fun map entry => insert entry.1 entry.2 map) []

theorem find?_insert_self (name : String) (value : α) (map : NameMap α) :
    find? name (insert name value map) = some value := by
  induction map with
  | nil => simp [insert, find?]
  | cons entry entries induction =>
      obtain ⟨other, old⟩ := entry
      simp only [insert]
      split
      · simp [find?]
      · rename_i different
        split
        · simp [find?]
        · simp [find?, Ne.symm different, induction]

theorem find?_insert_other {name other : String} (distinct : other ≠ name)
    (value : α) (map : NameMap α) :
    find? other (insert name value map) = find? other map := by
  induction map with
  | nil => simp [insert, find?, Ne.symm distinct]
  | cons entry entries induction =>
      obtain ⟨first, old⟩ := entry
      simp only [insert]
      split
      · rename_i same
        subst same
        simp [find?, Ne.symm distinct]
      · split
        · simp [find?, Ne.symm distinct]
        · simp only [find?, induction]

end NameMap

end Rebac
