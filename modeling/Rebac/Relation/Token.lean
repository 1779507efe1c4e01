import Rebac.Name
import Rebac.Text.Blank

/-!
# Tokens of relation definitions

The right-hand side of a relation definition consists of words, of which six
are keywords, and of single punctuation marks.  Words are as long as possible
and gaps may stand anywhere between tokens.
-/

namespace Rebac.Relation

inductive Keyword where
  | orWord
  | andWord
  | butWord
  | notWord
  | fromWord
  | withWord
  deriving Repr, DecidableEq

namespace Keyword

def all : List Keyword :=
  [.orWord, .andWord, .butWord, .notWord, .fromWord, .withWord]

def spelling : Keyword → String
  | .orWord => "or"
  | .andWord => "and"
  | .butWord => "but"
  | .notWord => "not"
  | .fromWord => "from"
  | .withWord => "with"

def ofWord? (word : List Char) : Option Keyword :=
  all.find? fun keyword => keyword.spelling.toList = word

end Keyword

inductive Token where
  | openList
  | closeList
  | comma
  | hash
  | colon
  | star
  | keyword (word : Keyword)
  | name (text : String)
  deriving Repr, DecidableEq

namespace Token

/-- The token as error messages show it. -/
def describe : Token → String
  | .openList => "'['"
  | .closeList => "']'"
  | .comma => "','"
  | .hash => "'#'"
  | .colon => "':'"
  | .star => "'*'"
  | .keyword word => "keyword '" ++ word.spelling ++ "'"
  | .name text => "'" ++ text ++ "'"

def ofMark? : Char → Option Token
  | '[' => some .openList
  | ']' => some .closeList
  | ',' => some .comma
  | '#' => some .hash
  | ':' => some .colon
  | '*' => some .star
  | _ => none

def ofWord (word : List Char) : Token :=
  match Keyword.ofWord? word with
  | some found => .keyword found
  | none => .name (String.ofList word)

end Token

/-- A character that starts no token, and the byte at which it stands. -/
structure StrayCharacter where
  character : Char
  position : Nat
  deriving Repr, DecidableEq

/-- Cut a text that starts at a byte position into tokens. -/
def tokenizeFrom (position : Nat) (text : List Char) :
    Except StrayCharacter (List Token) :=
  match text with
  | [] => .ok []
  | character :: rest =>
      if Text.isGap character then tokenizeFrom (position + 1) rest
      else if isNameCharacter character then
        let word := character :: rest.takeWhile isNameCharacter
        (tokenizeFrom (position + word.length)
          (rest.dropWhile isNameCharacter)).map (Token.ofWord word :: ·)
      else
        match Token.ofMark? character with
        | some token => (tokenizeFrom (position + 1) rest).map (token :: ·)
        | none => .error { character, position }
termination_by text.length
decreasing_by
  all_goals simp only [List.length_cons]
  · omega
  · exact Nat.lt_succ_of_le (Text.length_dropWhile_le _ _)
  · omega

def tokenize (text : List Char) : Except StrayCharacter (List Token) :=
  tokenizeFrom 0 text

end Rebac.Relation
