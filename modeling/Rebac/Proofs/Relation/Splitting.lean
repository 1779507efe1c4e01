import Rebac.Proofs.Outcome
import Rebac.Proofs.Relation.Spelling

/-!
# Texts that split into tokens

A text splits into marks, keywords and names if nothing else stands in it but gaps, and
every word ends where no character follows that would continue it.  Such a text is cut
into these tokens, and a text that is cut into tokens splits into them.
-/

namespace Rebac.Relation

inductive Splits : List Char → List Token → Prop where
  | nil : Splits [] []
  | gap {character : Char} {text : List Char} {tokens : List Token} :
      Text.isGap character = true → Splits text tokens →
      Splits (character :: text) tokens
  | mark {character : Char} {token : Token} {text : List Char} {tokens : List Token} :
      Token.ofMark? character = some token → Splits text tokens →
      Splits (character :: text) (token :: tokens)
  | keyword (keyword : Keyword) {text : List Char} {tokens : List Token} :
      EndsWord text → Splits text tokens →
      Splits (keyword.spelling.toList ++ text) (.keyword keyword :: tokens)
  | name {name : String} {text : List Char} {tokens : List Token} :
      isName name = true → EndsWord text → Splits text tokens →
      Splits (name.toList ++ text) (.name name :: tokens)

theorem Splits.spells {text : List Char} {tokens : List Token}
    (splits : Splits text tokens) : Spells text tokens := by
  induction splits with
  | nil => exact spells_nil
  | gap gap _ induction => exact spells_gap gap induction
  | mark mark _ induction => exact spells_mark mark induction
  | keyword keyword ends _ induction => exact spells_keyword keyword ends induction
  | name valid ends _ induction => exact spells_name valid ends induction

theorem isName_of_ofWord? {word : List Char} (filled : word ≠ [])
    (characters : ∀ character ∈ word, isNameCharacter character = true)
    (free : Keyword.ofWord? word = none) : isName (String.ofList word) = true := by
  have reserved : reservedWords = Keyword.all.map (·.spelling.toList) := by decide
  have unreserved : word ∉ reservedWords := by
    rw [reserved]
    intro member
    obtain ⟨keyword, inAll, spelled⟩ := List.mem_map.mp member
    rw [Keyword.ofWord?, List.find?_eq_none] at free
    exact free keyword inAll (decide_eq_true spelled)
  rw [isName_iff, String.toList_ofList]
  exact ⟨filled, characters, unreserved⟩

theorem splits_word {word text : List Char} {tokens : List Token} (filled : word ≠ [])
    (characters : ∀ character ∈ word, isNameCharacter character = true)
    (ends : EndsWord text) (splits : Splits text tokens) :
    Splits (word ++ text) (Token.ofWord word :: tokens) := by
  unfold Token.ofWord
  cases found : Keyword.ofWord? word with
  | some keyword =>
      have spelled : keyword.spelling.toList = word := by
        simpa using List.find?_some found
      rw [← spelled]
      exact .keyword keyword ends splits
  | none =>
      have named := Splits.name (isName_of_ofWord? filled characters found) ends splits
      rwa [String.toList_ofList] at named

theorem splits_of_tokenizeFrom {position : Nat} {text : List Char} {tokens : List Token}
    (cut : tokenizeFrom position text = .ok tokens) : Splits text tokens := by
  fun_induction tokenizeFrom position text generalizing tokens with
  | case1 =>
      obtain rfl : tokens = [] := by simpa using cut.symm
      exact .nil
  | case2 position character rest gap induction => exact .gap gap (induction cut)
  | case3 position character rest noGap start word =>
      rename_i induction
      obtain ⟨later, cutLater, rfl⟩ := map_eq_ok_iff.mp cut
      have characters : ∀ other ∈ word, isNameCharacter other = true := by
        intro other member
        rcases List.mem_cons.mp member with rfl | inRun
        · exact start
        · exact List.all_eq_true.mp List.all_takeWhile other inRun
      have ends : EndsWord (rest.dropWhile isNameCharacter) := by
        intro other first
        have outside := List.head?_dropWhile_not isNameCharacter rest
        rw [first] at outside
        simpa using outside
      have shape : character :: rest = word ++ rest.dropWhile isNameCharacter := by
        rw [List.cons_append, List.takeWhile_append_dropWhile]
      rw [shape]
      exact splits_word (List.cons_ne_nil _ _) characters ends (induction cutLater)
  | case4 position character rest noGap noWord token mark induction =>
      obtain ⟨later, cutLater, rfl⟩ := map_eq_ok_iff.mp cut
      exact .mark mark (induction cutLater)
  | case5 => simp at cut

/-- Cutting a text succeeds exactly if it splits into tokens. -/
theorem tokenize_eq_ok_iff {text : List Char} {tokens : List Token} :
    tokenize text = .ok tokens ↔ Splits text tokens :=
  ⟨splits_of_tokenizeFrom, fun splits => splits.spells.tokenize⟩

theorem Splits.isName {text : List Char} {tokens : List Token}
    (splits : Splits text tokens) {name : String} (member : .name name ∈ tokens) :
    isName name = true := by
  induction splits with
  | nil => cases member
  | gap _ _ induction => exact induction member
  | mark mark _ induction =>
      rcases List.mem_cons.mp member with rfl | later
      · unfold Token.ofMark? at mark
        split at mark <;> cases mark
      · exact induction later
  | keyword keyword _ _ induction =>
      apply induction
      simpa using member
  | name valid _ _ induction =>
      rcases List.mem_cons.mp member with same | later
      · obtain rfl := Token.name.inj same
        exact valid
      · exact induction later

end Rebac.Relation
