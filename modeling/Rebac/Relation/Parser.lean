import Rebac.Model
import Rebac.Relation.Token

/-!
# Reading relation definitions

A relation is defined by clauses joined with `or`.  A clause is a bracketed
list of direct user types, `relation from tupleset`, or the name of another
relation of the same type; at most one clause may be a list.  The operators
`and` and `but not` are recognised only to be refused by name.
-/

namespace Rebac

namespace Relation

/-- Faults inside a list of direct user types. -/
inductive ListFault where
  | unclosed
  | expectedSeparator (found : Token)
  | expectedTypeName (found : Token)
  | expectedRelation (typeName : String)
  | expectedStar (typeName : String)
  | expectedCondition (typeName : String)
  | trailing (found : Token)
  deriving Repr, DecidableEq

def ListFault.message : ListFault → String
  | .unclosed => "missing closing ']'"
  | .expectedSeparator found =>
      "expected ',' or ']', found " ++ found.describe
  | .expectedTypeName found => "expected a type name, found " ++ found.describe
  | .expectedRelation typeName =>
      "expected a relation after '" ++ typeName ++ "#'"
  | .expectedStar typeName => "expected '*' after '" ++ typeName ++ ":'"
  | .expectedCondition typeName =>
      "expected a condition name after '" ++ typeName ++ " with'"
  | .trailing found => "unexpected " ++ found.describe ++ " after ']'"

/-- Faults in the sequence of clauses. -/
inductive ClauseFault where
  | strayCharacter (stray : StrayCharacter)
  | danglingOr
  | unexpectedAfterClause (found : Token)
  | expectedClause (found : Option Token)
  | expectedTupleset (found : Option Token)
  deriving Repr, DecidableEq

def ClauseFault.message : ClauseFault → String
  | .strayCharacter stray =>
      "unexpected character '" ++ stray.character.toString ++ "' at position " ++
        toString stray.position
  | .danglingOr => "dangling 'or'"
  | .unexpectedAfterClause found =>
      "unexpected " ++ found.describe ++ " after clause"
  | .expectedClause (some found) => "expected a clause, found " ++ found.describe
  | .expectedClause none => "expected a clause"
  | .expectedTupleset (some found) =>
      "expected a tupleset relation after 'from', found " ++ found.describe
  | .expectedTupleset none =>
      "expected a tupleset relation after 'from', found end of expression"

/-- The set operators that rules do not support. -/
inductive UnsupportedOperator where
  | intersection
  | difference
  deriving Repr, DecidableEq

def UnsupportedOperator.spelling : UnsupportedOperator → String
  | .intersection => "and"
  | .difference => "but not"

inductive Fault where
  | empty
  | invalidExpression (cause : ClauseFault)
  | unsupportedOperator (operator : UnsupportedOperator)
  | secondList
  | invalidList (cause : ListFault)
  deriving Repr, DecidableEq

/-- A fault and the definition in which it was found. -/
structure Error where
  source : String
  fault : Fault
  deriving Repr, DecidableEq

def Error.message (error : Error) : String :=
  match error.fault with
  | .empty => "relation definition must not be empty"
  | .invalidExpression cause => cause.message ++ " in '" ++ error.source ++ "'"
  | .unsupportedOperator operator =>
      "the '" ++ operator.spelling ++ "' operator is not supported in '" ++
        error.source ++ "'; only 'or' may combine clauses"
  | .secondList =>
      "only one direct assignment list is allowed in '" ++ error.source ++ "'"
  | .invalidList cause => cause.message ++ " in '" ++ error.source ++ "'"

/-- What is read from the right-hand side of a definition. -/
structure Body where
  rule : Rule
  userTypes : List UserType
  deriving Repr, DecidableEq

/-- Read what qualifies a type name in a list. -/
def readSubject (typeName : String) :
    List Token → Except ListFault (UserType × List Token)
  | .hash :: .name relation :: rest =>
      .ok ({ UserType.plain typeName with relation := some relation }, rest)
  | .hash :: _ => .error (.expectedRelation typeName)
  | .colon :: .star :: rest =>
      .ok ({ UserType.plain typeName with wildcard := true }, rest)
  | .colon :: _ => .error (.expectedStar typeName)
  | rest => .ok (UserType.plain typeName, rest)

/-- Read the condition that an entry may carry. -/
def readCondition (entry : UserType) :
    List Token → Except ListFault (UserType × List Token)
  | .keyword .withWord :: .name condition :: rest =>
      .ok ({ entry with condition := some condition }, rest)
  | .keyword .withWord :: _ => .error (.expectedCondition entry.typeName)
  | rest => .ok (entry, rest)

/-- Read one entry of a list. -/
def readEntry : List Token → Except ListFault (UserType × List Token)
  | .name typeName :: rest =>
      match readSubject typeName rest with
      | .error fault => .error fault
      | .ok (entry, rest) => readCondition entry rest
  | [] => .error .unclosed
  | found :: _ => .error (.expectedTypeName found)

theorem length_of_readSubject {typeName : String} {tokens rest : List Token}
    {entry : UserType} (read : readSubject typeName tokens = .ok (entry, rest)) :
    rest.length ≤ tokens.length := by
  unfold readSubject at read
  split at read
  · obtain ⟨_, rfl⟩ := by simpa using read
    simp only [List.length_cons]
    omega
  · simp at read
  · obtain ⟨_, rfl⟩ := by simpa using read
    simp only [List.length_cons]
    omega
  · simp at read
  · obtain ⟨_, rfl⟩ := by simpa using read
    exact Nat.le_refl _

theorem length_of_readCondition {entry : UserType} {tokens rest : List Token}
    {qualified : UserType}
    (read : readCondition entry tokens = .ok (qualified, rest)) :
    rest.length ≤ tokens.length := by
  unfold readCondition at read
  split at read
  · obtain ⟨_, rfl⟩ := by simpa using read
    simp only [List.length_cons]
    omega
  · simp at read
  · obtain ⟨_, rfl⟩ := by simpa using read
    exact Nat.le_refl _

theorem length_of_readEntry {tokens rest : List Token} {entry : UserType}
    (read : readEntry tokens = .ok (entry, rest)) :
    rest.length < tokens.length := by
  unfold readEntry at read
  split at read
  · split at read
    · simp at read
    · rename_i subject
      have first := length_of_readSubject subject
      have second := length_of_readCondition read
      simp only [List.length_cons]
      omega
  · simp at read
  · simp at read

/-- Read the entries of a list up to its closing bracket. -/
def readEntries (tokens : List Token) :
    Except ListFault (List UserType × List Token) :=
  match _read : readEntry tokens with
  | .error fault => .error fault
  | .ok (entry, .comma :: rest) =>
      match readEntries rest with
      | .error fault => .error fault
      | .ok (entries, rest) => .ok (entry :: entries, rest)
  | .ok (entry, .closeList :: rest) => .ok ([entry], rest)
  | .ok (_, []) => .error .unclosed
  | .ok (_, found :: _) => .error (.expectedSeparator found)
termination_by tokens.length
decreasing_by
  have shorter := length_of_readEntry _read
  simp only [List.length_cons] at shorter
  omega

/-- Read a list whose opening bracket has been read. -/
def readList : List Token → Except ListFault (List UserType × List Token)
  | .closeList :: rest => .ok ([], rest)
  | tokens => readEntries tokens

def operator? : Token → Option UnsupportedOperator
  | .keyword .andWord => some .intersection
  | .keyword .butWord => some .difference
  | .keyword .notWord => some .difference
  | _ => none

/-- The fault of a token that cannot stand where it was found. -/
def refuse (found : Token) (cause : ClauseFault) : Fault :=
  match operator? found with
  | some operator => .unsupportedOperator operator
  | none => .invalidExpression cause

/-- One clause and, for a bracketed list, its entries. -/
structure Clause where
  rule : Rule
  entries : Option (List UserType)
  deriving Repr, DecidableEq

def readClause : List Token → Except Fault (Clause × List Token)
  | .openList :: rest =>
      match readList rest with
      | .error fault => .error (.invalidList fault)
      | .ok (entries, rest) =>
          .ok ({ rule := .direct, entries := some entries }, rest)
  | .name relation :: .keyword .fromWord :: .name tupleset :: rest =>
      .ok ({ rule := .through tupleset relation, entries := none }, rest)
  | .name _ :: .keyword .fromWord :: found :: _ =>
      .error (refuse found (.expectedTupleset (some found)))
  | [.name _, .keyword .fromWord] =>
      .error (.invalidExpression (.expectedTupleset none))
  | .name relation :: rest =>
      .ok ({ rule := .computed relation, entries := none }, rest)
  | found :: _ => .error (refuse found (.expectedClause (some found)))
  | [] => .error (.invalidExpression (.expectedClause none))

theorem length_of_readEntries {tokens rest : List Token}
    {entries : List UserType} (read : readEntries tokens = .ok (entries, rest)) :
    rest.length < tokens.length := by
  fun_induction readEntries tokens generalizing entries rest with
  | case1 => simp at read
  | case2 => simp at read
  | case3 _ _ _ entry _ _ recursion induction =>
      obtain ⟨_, rfl⟩ := by simpa using read
      have first := length_of_readEntry entry
      have second := induction recursion
      simp only [List.length_cons] at first
      omega
  | case4 _ _ _ entry =>
      obtain ⟨_, rfl⟩ := by simpa using read
      have first := length_of_readEntry entry
      simp only [List.length_cons] at first
      omega
  | case5 => simp at read
  | case6 => simp at read

theorem length_of_readList {tokens rest : List Token} {entries : List UserType}
    (read : readList tokens = .ok (entries, rest)) :
    rest.length < tokens.length := by
  unfold readList at read
  split at read
  · obtain ⟨_, rfl⟩ := by simpa using read
    simp
  · exact length_of_readEntries read

theorem length_of_readClause {tokens rest : List Token} {clause : Clause}
    (read : readClause tokens = .ok (clause, rest)) :
    rest.length < tokens.length := by
  unfold readClause at read
  split at read
  · split at read
    · simp at read
    · rename_i list
      obtain ⟨_, rfl⟩ := by simpa using read
      have shorter := length_of_readList list
      simp only [List.length_cons]
      omega
  · obtain ⟨_, rfl⟩ := by simpa using read
    simp only [List.length_cons]
    omega
  · simp at read
  · simp at read
  · obtain ⟨_, rfl⟩ := by simpa using read
    simp
  · simp at read
  · simp at read

/-- Read clauses joined with `or` to the end, given whether a list occurred
before them. -/
def readClauses (listed : Bool) (tokens : List Token) :
    Except Fault (List Clause) :=
  match _read : readClause tokens with
  | .error fault => .error fault
  | .ok (clause, rest) =>
      if listed && clause.entries.isSome then .error .secondList
      else
        match rest with
        | [] => .ok [clause]
        | [.keyword .orWord] => .error (.invalidExpression .danglingOr)
        | .keyword .orWord :: rest =>
            match readClauses (listed || clause.entries.isSome) rest with
            | .error fault => .error fault
            | .ok clauses => .ok (clause :: clauses)
        | found :: _ => .error (refuse found (.unexpectedAfterClause found))
termination_by tokens.length
decreasing_by
  have shorter := length_of_readClause _read
  simp only [List.length_cons] at shorter
  omega

/-- The definition that some clauses make up. -/
def Body.ofClauses (clauses : List Clause) : Body :=
  { rule := Rule.unionOf (clauses.map (·.rule))
    userTypes := (clauses.findSome? (·.entries)).getD [] }

/-- Read the right-hand side of a definition. -/
def Body.ofText (text : List Char) : Except Error Body :=
  let text := Text.trim text
  let failed := fun fault => Except.error { source := String.ofList text, fault }
  if text.isEmpty then failed .empty
  else
    match tokenize text with
    | .error stray => failed (.invalidExpression (.strayCharacter stray))
    | .ok tokens =>
        match readClauses false tokens with
        | .error fault => failed fault
        | .ok clauses => .ok (Body.ofClauses clauses)

end Relation

/-- Read the entries of a list of direct user types, written without its
brackets. -/
def UserType.listOfText (text : List Char) :
    Except Relation.Error (List UserType) :=
  let bracketed := '[' :: Text.trim text ++ [']']
  let failed := fun fault =>
    Except.error { source := String.ofList bracketed, fault }
  match Relation.tokenize bracketed with
  | .error stray => failed (.invalidExpression (.strayCharacter stray))
  | .ok tokens =>
      match Relation.readList tokens.tail with
      | .error fault => failed (.invalidList fault)
      | .ok (entries, []) => .ok entries
      | .ok (_, found :: _) => failed (.invalidList (.trailing found))

end Rebac
