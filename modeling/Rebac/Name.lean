/-!
# Names

Types, relations and references to conditions are spelled with one alphabet,
from which the words of the relation language are excluded.  Conditions and
their parameters are identifiers of the expression language instead.
-/

namespace Rebac

def isNameCharacter (character : Char) : Bool :=
  character.isAlphanum || character == '_' || character == '-'

/-- The words that combine or qualify the clauses of a relation. -/
def reservedWords : List (List Char) :=
  ["or".toList, "and".toList, "but".toList, "not".toList, "from".toList,
    "with".toList]

/-- Names of types and relations, and references to conditions. -/
def isName (name : String) : Bool :=
  !name.toList.isEmpty && name.toList.all isNameCharacter &&
    !reservedWords.contains name.toList

def isIdentifierStart (character : Char) : Bool :=
  character.isAlpha || character == '_'

def isIdentifierCharacter (character : Char) : Bool :=
  character.isAlphanum || character == '_'

/-- Names of conditions and of their parameters. -/
def isIdentifier (name : String) : Bool :=
  match name.toList with
  | [] => false
  | first :: rest => isIdentifierStart first && rest.all isIdentifierCharacter

theorem isNameCharacter_of_isIdentifierCharacter {character : Char}
    (identifier : isIdentifierCharacter character = true) :
    isNameCharacter character = true := by
  simp only [isIdentifierCharacter, isNameCharacter, Bool.or_eq_true] at *
  exact Or.inl identifier

end Rebac
