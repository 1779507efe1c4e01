import Rebac.Relation.Token

/-!
# Texts that spell tokens

A text spells a list of tokens if cutting it, whatever follows it, yields these
tokens before those of the rest.  Words are as long as possible, so that the
rest must not continue a word.  Spellings are composed from the left: a name
goes before anything that does not continue it, marks and gaps before
anything at all.
-/

namespace Rebac

theorem isName_iff {name : String} :
    isName name = true ↔
      name.toList ≠ [] ∧ (∀ character ∈ name.toList, isNameCharacter character = true) ∧
        name.toList ∉ reservedWords := by
  simp [isName, and_assoc]

theorem toNat_of_isAlphanum {character : Char}
    (alphanumeric : character.isAlphanum = true) :
    ((65 ≤ character.toNat ∧ character.toNat ≤ 90) ∨
      (97 ≤ character.toNat ∧ character.toNat ≤ 122)) ∨
        (48 ≤ character.toNat ∧ character.toNat ≤ 57) := by
  rcases (Bool.or_eq_true _ _).mp alphanumeric with letter | digit
  · apply Or.inl
    rcases (Bool.or_eq_true _ _).mp letter with upper | lower
    · apply Or.inl
      have range : 65 ≤ character.val ∧ character.val ≤ 90 := of_decide_eq_true upper
      exact range
    · apply Or.inr
      obtain ⟨least, greatest⟩ := (Bool.and_eq_true _ _).mp lower
      have above : 97 ≤ character.val := of_decide_eq_true least
      have below : character.val ≤ 122 := of_decide_eq_true greatest
      exact ⟨above, below⟩
  · exact Or.inr (Char.isDigit_iff_toNat.mp digit)

theorem not_isBlank_of_isAlphanum {character : Char}
    (alphanumeric : character.isAlphanum = true) :
    Text.isBlank character = false := by
  have bounds := toNat_of_isAlphanum alphanumeric
  simp only [Text.isBlank, Bool.or_eq_false_iff, Bool.and_eq_false_iff,
    decide_eq_false_iff_not, beq_eq_false_iff_ne]
  omega

theorem not_isBlank_of_isNameCharacter {character : Char}
    (word : isNameCharacter character = true) : Text.isBlank character = false := by
  simp only [isNameCharacter, Bool.or_eq_true, beq_iff_eq] at word
  rcases word with (alphanumeric | rfl) | rfl
  · exact not_isBlank_of_isAlphanum alphanumeric
  · decide
  · decide

namespace Relation

/-- Nothing that continues a word. -/
def EndsWord (text : List Char) : Prop :=
  ∀ character, text.head? = some character → isNameCharacter character = false

def Spells (text : List Char) (tokens : List Token) : Prop :=
  ∀ (rest : List Char) (later : List Token), EndsWord rest →
    (∀ position, tokenizeFrom position rest = .ok later) →
      ∀ position, tokenizeFrom position (text ++ rest) = .ok (tokens ++ later)

theorem endsWord_nil : EndsWord [] := by
  intro character first
  cases first

theorem endsWord_cons {character : Char} (outside : isNameCharacter character = false)
    (text : List Char) : EndsWord (character :: text) := by
  intro other first
  obtain rfl : character = other := by simpa using first
  exact outside

theorem Keyword.ofWord?_eq_none {word : List Char} (free : word ∉ reservedWords) :
    Keyword.ofWord? word = none := by
  rw [Keyword.ofWord?, List.find?_eq_none]
  intro keyword _ same
  have spelled : keyword.spelling.toList = word := by simpa using same
  apply free
  rw [← spelled]
  cases keyword <;> decide

theorem Keyword.ofWord?_spelling (keyword : Keyword) :
    Keyword.ofWord? keyword.spelling.toList = some keyword := by
  cases keyword <;> decide

theorem Keyword.spelling_word (keyword : Keyword) :
    keyword.spelling.toList ≠ [] ∧
      ∀ character ∈ keyword.spelling.toList, isNameCharacter character = true := by
  have characters : keyword.spelling.toList.all isNameCharacter = true := by
    cases keyword <;> decide
  refine ⟨?_, List.all_eq_true.mp characters⟩
  cases keyword <;> decide

theorem isNameCharacter_of_ofMark? {character : Char} {token : Token}
    (mark : Token.ofMark? character = some token) :
    isNameCharacter character = false ∧ Text.isGap character = false := by
  unfold Token.ofMark? at mark
  split at mark <;> first | decide | simp at mark

theorem isNameCharacter_of_isGap {character : Char}
    (gap : Text.isGap character = true) : isNameCharacter character = false := by
  simp only [Text.isGap, Bool.or_eq_true, beq_iff_eq] at gap
  rcases gap with ((rfl | rfl) | rfl) | rfl <;> decide

theorem spells_nil : Spells [] [] := by
  intro rest later _ spelled position
  exact spelled position

/-- A whole text that spells tokens is cut into them. -/
theorem Spells.tokenize {text : List Char} {tokens : List Token}
    (spells : Spells text tokens) : tokenize text = .ok tokens := by
  have empty : ∀ position, tokenizeFrom position [] = .ok [] := by
    intro position
    rw [tokenizeFrom]
  have whole := spells [] [] endsWord_nil empty 0
  simpa [Relation.tokenize] using whole

/-- A word is cut off whole. -/
theorem spells_word {word text : List Char} {tokens : List Token}
    (filled : word ≠ [])
    (characters : ∀ character ∈ word, isNameCharacter character = true)
    (ends : EndsWord text) (spells : Spells text tokens) :
    Spells (word ++ text) (Token.ofWord word :: tokens) := by
  intro rest later restEnds spelled position
  obtain ⟨first, word, rfl⟩ := List.exists_cons_of_ne_nil filled
  have followEnds : EndsWord (text ++ rest) := by
    cases text with
    | nil => exact restEnds
    | cons character text => exact endsWord_cons (ends character rfl) (text ++ rest)
  have inner : ∀ character ∈ word, isNameCharacter character = true := by
    intro character member
    exact characters character (by simp [member])
  have start : isNameCharacter first = true := characters first (by simp)
  have noGap : Text.isGap first = false := by
    cases gap : Text.isGap first with
    | false => rfl
    | true => simp [isNameCharacter_of_isGap gap] at start
  have stop : (text ++ rest).takeWhile isNameCharacter = [] ∧
      (text ++ rest).dropWhile isNameCharacter = text ++ rest := by
    cases shape : text ++ rest with
    | nil => simp
    | cons character others =>
        have outside := followEnds character (by simp [shape])
        simp [outside]
  rw [List.append_assoc, List.cons_append, tokenizeFrom]
  simp only [noGap, start, if_true, Bool.false_eq_true, if_false,
    List.takeWhile_append_of_pos inner, List.dropWhile_append_of_pos inner, stop.1,
    stop.2, List.append_nil, spells rest later restEnds spelled]
  rfl

theorem spells_name {name : String} {text : List Char} {tokens : List Token}
    (valid : isName name = true) (ends : EndsWord text) (spells : Spells text tokens) :
    Spells (name.toList ++ text) (.name name :: tokens) := by
  obtain ⟨filled, characters, free⟩ := isName_iff.mp valid
  have word := spells_word filled characters ends spells
  simpa [Token.ofWord, Keyword.ofWord?_eq_none free] using word

theorem spells_keyword (keyword : Keyword) {text : List Char} {tokens : List Token}
    (ends : EndsWord text) (spells : Spells text tokens) :
    Spells (keyword.spelling.toList ++ text) (.keyword keyword :: tokens) := by
  obtain ⟨filled, characters⟩ := keyword.spelling_word
  have word := spells_word filled characters ends spells
  simpa only [Token.ofWord, Keyword.ofWord?_spelling] using word

theorem spells_mark {character : Char} {token : Token} {text : List Char}
    {tokens : List Token} (mark : Token.ofMark? character = some token)
    (spells : Spells text tokens) : Spells (character :: text) (token :: tokens) := by
  intro rest later restEnds spelled position
  obtain ⟨noWord, noGap⟩ := isNameCharacter_of_ofMark? mark
  rw [List.cons_append, tokenizeFrom]
  simp only [noGap, noWord, Bool.false_eq_true, if_false, mark,
    spells rest later restEnds spelled]
  rfl

theorem spells_gap {character : Char} {text : List Char} {tokens : List Token}
    (gap : Text.isGap character = true) (spells : Spells text tokens) :
    Spells (character :: text) tokens := by
  intro rest later restEnds spelled position
  rw [List.cons_append, tokenizeFrom]
  simp only [gap, if_true]
  exact spells rest later restEnds spelled (position + 1)

/-- Texts of names, keywords and marks with single blanks between them.  A
hash stands right behind a name. -/
inductive Spelling : List Char → List Token → Prop where
  | nil : Spelling [] []
  | name {name : String} {text : List Char} {tokens : List Token} :
      isName name = true → EndsWord text → Spelling text tokens →
      Spelling (name.toList ++ text) (.name name :: tokens)
  | qualifiedName {name : String} {text : List Char} {tokens : List Token} :
      isName name = true → Spelling text tokens →
      Spelling (name.toList ++ '#' :: text) (.name name :: .hash :: tokens)
  | keyword (keyword : Keyword) {text : List Char} {tokens : List Token} :
      EndsWord text → Spelling text tokens →
      Spelling (keyword.spelling.toList ++ text) (.keyword keyword :: tokens)
  | mark {character : Char} {token : Token} {text : List Char}
      {tokens : List Token} :
      Token.ofMark? character = some token → character ≠ '#' →
      Spelling text tokens → Spelling (character :: text) (token :: tokens)
  | blank {text : List Char} {tokens : List Token} :
      Spelling text tokens → Spelling (' ' :: text) tokens

theorem Spelling.spells {text : List Char} {tokens : List Token}
    (spelling : Spelling text tokens) : Spells text tokens := by
  induction spelling with
  | nil => exact spells_nil
  | name valid ends _ induction => exact spells_name valid ends induction
  | qualifiedName valid _ induction =>
      have hash : Token.ofMark? '#' = some .hash := rfl
      exact spells_name valid (endsWord_cons (by decide) _) (spells_mark hash induction)
  | keyword keyword ends _ induction => exact spells_keyword keyword ends induction
  | mark mark _ _ induction => exact spells_mark mark induction
  | blank _ induction => exact spells_gap (by decide) induction

/-- Such texts stand on one line. -/
theorem Spelling.inline {text : List Char} {tokens : List Token}
    (spelling : Spelling text tokens) {character : Char}
    (member : character ∈ text) : character ≠ '\n' ∧ character ≠ '\r' := by
  have word : ∀ {other : Char}, isNameCharacter other = true →
      other ≠ '\n' ∧ other ≠ '\r' := by
    intro other name
    constructor
    · rintro rfl
      exact absurd name (by decide)
    · rintro rfl
      exact absurd name (by decide)
  induction spelling with
  | nil => cases member
  | name valid _ _ induction =>
      rcases List.mem_append.mp member with inName | inText
      · exact word ((isName_iff.mp valid).2.1 character inName)
      · exact induction inText
  | qualifiedName valid _ induction =>
      rcases List.mem_append.mp member with inName | inText
      · exact word ((isName_iff.mp valid).2.1 character inName)
      · rcases List.mem_cons.mp inText with rfl | inRest
        · decide
        · exact induction inRest
  | keyword keyword _ _ induction =>
      rcases List.mem_append.mp member with inKeyword | inText
      · exact word (keyword.spelling_word.2 character inKeyword)
      · exact induction inText
  | mark mark _ _ induction =>
      rcases List.mem_cons.mp member with rfl | inText
      · constructor <;> rintro rfl <;> simp [Token.ofMark?] at mark
      · exact induction inText
  | blank _ induction =>
      rcases List.mem_cons.mp member with rfl | inText
      · decide
      · exact induction inText

end Relation

end Rebac
