import Rebac.Model

/-!
# Cycles among the relations of a type

A relation refers to the relations of the same type that its rule computes
from.  A depth-first search from each relation in turn looks for a walk that
comes back to itself.  The search keeps the relations on its current path and
those that it has visited; a path never repeats a relation, so its length is
bounded by the number of relations.
-/

namespace Rebac.TypeDefinition

/-- The references of the last definition of a relation. -/
def references (type : TypeDefinition) (name : String) : List String :=
  match type.relations.reverse.find? (·.name = name) with
  | some relation => relation.rule.references
  | none => []

/-- The references of a relation that the type defines. -/
def successors (type : TypeDefinition) (name : String) : List String :=
  (type.references name).filter fun reference =>
    type.relationNames.contains reference

/-- What a search has found: a walk that ends with a repetition, written
backwards, or the relations visited so far. -/
inductive Search where
  | cycle (reversed : List String)
  | exhausted (visited : List String)
  deriving Repr, DecidableEq

mutual

/-- Visit a relation at the end of a path, which is written backwards. -/
def visit (type : TypeDefinition) (steps : Nat) (path visited : List String)
    (name : String) : Search :=
  if path.contains name then .cycle (name :: path)
  else if visited.contains name then .exhausted visited
  else
    match steps with
    | 0 => .exhausted visited
    | steps + 1 =>
        type.visitAll steps (name :: path) (name :: visited) (type.successors name)
termination_by (steps, 0)

/-- List counterpart of `TypeDefinition.visit`. -/
def visitAll (type : TypeDefinition) (steps : Nat) (path visited : List String)
    (names : List String) : Search :=
  match names with
  | [] => .exhausted visited
  | name :: names =>
      match type.visit steps path visited name with
      | .cycle reversed => .cycle reversed
      | .exhausted visited => type.visitAll steps path visited names
termination_by (steps, names.length + 1)

end

/-- Search from relations in turn. -/
def searchFrom (type : TypeDefinition) (visited : List String) :
    List String → Option (String × List String)
  | [] => none
  | root :: roots =>
      match type.visit type.relations.length [] visited root with
      | .cycle reversed => some (root, reversed.reverse)
      | .exhausted visited => type.searchFrom visited roots

/-- The first relation from which a cycle is reached, and the walk into it. -/
def cycle? (type : TypeDefinition) : Option (String × List String) :=
  type.searchFrom [] type.relationNames

end Rebac.TypeDefinition
