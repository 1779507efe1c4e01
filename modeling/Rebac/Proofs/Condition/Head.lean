import Rebac.Proofs.Condition.Cutting
import Rebac.Proofs.Condition.Read

/-!
# The heads of blocks that are read

A block that is read starts with a head, which ends with the opening brace.  The head
holds names, types and the marks between them, and nothing else.  Its body holds the
expression.
-/

namespace Rebac

theorem isIdentifierCharacter_of_toLower {character : Char}
    (lower : isIdentifierCharacter character.toLower = true) :
    isIdentifierCharacter character = true := by
  cases upper : character.isUpper with
  | true =>
      have alphabetic : character.isAlpha = true := Bool.or_eq_true_iff.mpr (.inl upper)
      simp [isIdentifierCharacter, Char.isAlphanum, alphabetic]
  | false =>
      have same : character.toLower = character := dif_neg (of_decide_eq_false upper)
      rwa [same] at lower

/-- What the head of a block may hold. -/
def isHeadSign (character : Char) : Bool :=
  Text.isBlank character || isIdentifierCharacter character ||
    "(),:\x7b".toList.contains character

theorem isHeadSign_of_isBlank {character : Char} (blank : Text.isBlank character = true) :
    isHeadSign character = true := by
  simp [isHeadSign, blank]

theorem isHeadSign_of_isIdentifierCharacter {character : Char}
    (identifier : isIdentifierCharacter character = true) : isHeadSign character = true := by
  simp [isHeadSign, identifier]

theorem isHeadSign_of_isIdentifier {text : List Char}
    (identifier : isIdentifier (String.ofList (Text.trim text)) = true) {character : Char}
    (member : character ∈ text) : isHeadSign character = true := by
  rcases Text.mem_trim member with blank | inName
  · exact isHeadSign_of_isBlank blank
  · apply isHeadSign_of_isIdentifierCharacter
    apply isIdentifierCharacter_of_mem identifier
    rwa [String.toList_ofList]

theorem ParameterType.isIdentifierCharacter_name {type : ParameterType} {character : Char}
    (member : character ∈ type.name.toList) : isIdentifierCharacter character = true := by
  have each : type.name.toList.all isIdentifierCharacter = true := by
    cases type <;> decide
  exact List.all_eq_true.mp each character member

theorem isHeadSign_of_ofText? {text : List Char} {type : ParameterType}
    (found : ParameterType.ofText? text = some type) {character : Char}
    (member : character ∈ text) : isHeadSign character = true := by
  have stripped : ∀ lowered : List Char, ∀ other ∈ lowered,
      other ∈ "type_name_".toList ∨
        other ∈ (List.isPrefixOf? "type_name_".toList lowered).getD lowered := by
    intro lowered other inLowered
    cases shape : List.isPrefixOf? "type_name_".toList lowered with
    | none => exact .inr inLowered
    | some bare =>
        rw [← List.isPrefixOf?_eq_some_iff_append_eq.mp shape] at inLowered
        exact List.mem_append.mp inLowered
  rcases Text.mem_trim member with blank | inType
  · exact isHeadSign_of_isBlank blank
  · apply isHeadSign_of_isIdentifierCharacter
    apply isIdentifierCharacter_of_toLower
    have spelled := List.find?_some found
    rcases stripped _ _ (List.mem_map_of_mem inType) with inPrefix | inBare
    · have each : "type_name_".toList.all isIdentifierCharacter = true := by decide
      exact List.all_eq_true.mp each _ inPrefix
    · rw [← of_decide_eq_true spelled] at inBare
      exact ParameterType.isIdentifierCharacter_name inBare

namespace Condition

variable {condition : String} {declared : List String} {character : Char}

theorem isHeadSign_of_readParameter {entry : List Char} {parameter : Parameter}
    (read : readParameter condition declared entry = .ok parameter)
    (member : character ∈ entry) : isHeadSign character = true := by
  unfold readParameter at read
  simp only at read
  split at read
  · cases read
  · rename_i before after cut
    split at read
    · rename_i identifier
      split at read
      · cases read
      · rename_i type found
        rw [Text.append_of_splitOnce cut] at member
        rcases List.mem_append.mp member with inBefore | behind
        · exact isHeadSign_of_isIdentifier identifier inBefore
        · rcases List.mem_cons.mp behind with rfl | inAfter
          · decide
          · rcases Text.mem_trim inAfter with blank | inType
            · exact isHeadSign_of_isBlank blank
            · exact isHeadSign_of_ofText? found inType
    · cases read

theorem isHeadSign_of_readEntries {entries : List (List Char)} {parameters : List Parameter}
    (read : readEntries condition declared entries = .ok parameters) {entry : List Char}
    (inEntries : entry ∈ entries) (member : character ∈ entry) :
    isHeadSign character = true := by
  induction entries generalizing declared parameters with
  | nil => cases inEntries
  | cons first entries induction =>
      rw [readEntries] at read
      obtain ⟨parameter, readFirst, read⟩ := bind_eq_ok_iff.mp read
      obtain ⟨later, others, _⟩ := bind_eq_ok_iff.mp read
      rcases List.mem_cons.mp inEntries with rfl | inLater
      · rcases Text.mem_trim member with blank | inTrimmed
        · exact isHeadSign_of_isBlank blank
        · exact isHeadSign_of_readParameter readFirst inTrimmed
      · exact induction others inLater

theorem isHeadSign_of_readParameters {text : List Char} {parameters : List Parameter}
    (read : readParameters condition text = .ok parameters) (member : character ∈ text) :
    isHeadSign character = true := by
  rcases Text.mem_trim member with blank | inTrimmed
  · exact isHeadSign_of_isBlank blank
  · unfold readParameters at read
    simp only at read
    split at read
    · rename_i empty
      rw [List.isEmpty_iff.mp empty] at inTrimmed
      cases inTrimmed
    · obtain same | ⟨entry, inEntries, inEntry⟩ : character = ',' ∨ _ :=
        Text.mem_splitOn inTrimmed
      · exact same ▸ rfl
      · exact isHeadSign_of_readEntries read inEntries inEntry

theorem not_mem_of_splitOnce {separator : Char} {text before after : List Char}
    (cut : Text.splitOnce separator text = some (before, after)) : separator ∉ before := by
  induction text generalizing before with
  | nil => cases cut
  | cons character text induction =>
      rw [Text.splitOnce] at cut
      split at cut
      · obtain ⟨rfl, _⟩ := Prod.mk.inj (Option.some.inj cut)
        exact List.not_mem_nil
      · rename_i different
        obtain ⟨⟨inner, rest⟩, cutInner, same⟩ := Option.map_eq_some_iff.mp cut
        obtain ⟨rfl, rfl⟩ := Prod.mk.inj same
        simp [Ne.symm different, induction cutInner]

/-- What stands in front of the body of a block. -/
structure BlockHead where
  gap : List Char
  name : List Char
  parameters : List Char
  between : List Char

def BlockHead.text (head : BlockHead) : List Char :=
  "condition".toList ++ (head.gap ++ (head.name ++ '(' ::
    (head.parameters ++ ')' :: (head.between ++ ['\x7b']))))

theorem BlockHead.text_append (head : BlockHead) (body : List Char) :
    head.text ++ body = "condition".toList ++ (head.gap ++ (head.name ++ '(' ::
      (head.parameters ++ ')' :: (head.between ++ '\x7b' :: body)))) := by
  unfold BlockHead.text
  generalize "condition".toList = keyword
  simp

/-- The pieces stand as far to the left as they can. -/
structure BlockHead.IsLeftmost (head : BlockHead) : Prop where
  gap : ∀ character ∈ head.gap, Text.isGap character = true
  start : ∀ character ∈ head.name.head?, Text.isGap character = false
  name : ∀ character ∈ head.name, character ≠ '(' ∧ character ≠ '\x7b'
  parameters : ')' ∉ head.parameters
  between : ∀ character ∈ head.between, Text.isGap character = true

private theorem span_stop {member : Char → Bool} {run : List Char}
    (inside : ∀ character ∈ run, member character = true) {stop : Char}
    (outside : member stop = false) (rest : List Char) :
    (run ++ stop :: rest).takeWhile member = run ∧
      (run ++ stop :: rest).dropWhile member = stop :: rest := by
  apply Expression.IsLongest.span
  refine ⟨inside, fun character first => ?_⟩
  obtain rfl := Option.some.inj first
  exact outside

theorem BlockHead.IsLeftmost.blockHead?_append {head : BlockHead} (leftmost : head.IsLeftmost)
    (body : List Char) :
    blockHead? (head.text ++ body) = some (head.name, head.parameters, body) := by
  obtain ⟨gap, name, parameters, between⟩ := head
  obtain ⟨isGap, start, isName, noParenthesis, isBetween⟩ := leftmost
  have named : Text.skipGap (gap ++ (name ++ '(' ::
      (parameters ++ ')' :: (between ++ '\x7b' :: body)))) =
        name ++ '(' :: (parameters ++ ')' :: (between ++ '\x7b' :: body)) := by
    cases name with
    | nil => exact (span_stop isGap (by decide) _).2
    | cons first name => exact (span_stop isGap (start first rfl) _).2
  have outside : ∀ character ∈ name,
      (decide (character ≠ '(') && decide (character ≠ '\x7b')) = true := by
    intro character member
    simpa using isName character member
  have stops : (decide ('(' ≠ '(') && decide ('(' ≠ '\x7b')) = false := by decide
  obtain ⟨taken, behind⟩ := span_stop outside stops
    (parameters ++ ')' :: (between ++ '\x7b' :: body))
  have cut := Text.splitOnce_append noParenthesis (between ++ '\x7b' :: body)
  have brace : Text.skipGap (between ++ '\x7b' :: body) = '\x7b' :: body :=
    (span_stop isBetween (by decide) body).2
  simp only [blockHead?, BlockHead.text_append, Text.isPrefixOf?_append, named, taken, behind, cut, brace,
    bind, Option.bind_some]

/-- Where the pieces of a block are found. -/
theorem exists_isLeftmost_of_blockHead? {statement name parameters body : List Char}
    (found : blockHead? statement = some (name, parameters, body)) :
    ∃ head : BlockHead, head.IsLeftmost ∧ head.name = name ∧ head.parameters = parameters ∧
      statement = head.text ++ body := by
  have skipped : ∀ text : List Char, ∃ gap,
      (∀ character ∈ gap, Text.isGap character = true) ∧ text = gap ++ Text.skipGap text := by
    intro text
    exact ⟨text.takeWhile Text.isGap, List.all_eq_true.mp List.all_takeWhile,
      List.takeWhile_append_dropWhile.symm⟩
  unfold blockHead? at found
  obtain ⟨behindKeyword, keyword, found⟩ := Option.bind_eq_some_iff.mp found
  obtain ⟨gap, isGap, gapSplit⟩ := skipped behindKeyword
  simp only at found
  split at found
  · rename_i rest named
    obtain ⟨⟨inside, behind⟩, cut, found⟩ := Option.bind_eq_some_iff.mp found
    obtain ⟨between, isBetween, betweenSplit⟩ := skipped behind
    split at found
    · rename_i later brace
      obtain ⟨rfl, pieces⟩ := Prod.mk.inj (Option.some.inj found)
      obtain ⟨rfl, rfl⟩ := Prod.mk.inj pieces
      refine ⟨⟨gap, _, inside, between⟩, ⟨isGap, ?_, ?_, not_mem_of_splitOnce cut, isBetween⟩,
        rfl, rfl, ?_⟩
      · intro character first
        have starts : (Text.skipGap behindKeyword).head? = some character := by
          have whole := congrArg List.head? (List.takeWhile_append_dropWhile
            (l := Text.skipGap behindKeyword)
            (p := fun character => decide (character ≠ '(') && decide (character ≠ '\x7b')))
          rw [← whole, List.head?_append, Option.mem_def.mp first]
          rfl
        have stops := List.head?_dropWhile_not Text.isGap behindKeyword
        unfold Text.skipGap at starts
        rw [starts] at stops
        simpa using stops
      · intro character member
        simpa using List.all_eq_true.mp List.all_takeWhile character member
      · rw [BlockHead.text_append, ← brace, ← betweenSplit, ← Text.append_of_splitOnce cut, ← named,
          List.takeWhile_append_dropWhile, ← gapSplit]
        exact (List.isPrefixOf?_eq_some_iff_append_eq.mp keyword).symm
    · cases found
  · cases found

theorem BlockHead.isHeadSign_of_mem {head : BlockHead} (leftmost : head.IsLeftmost)
    (inName : ∀ character ∈ head.name, isHeadSign character = true)
    (inParameters : ∀ character ∈ head.parameters, isHeadSign character = true) :
    ∀ character ∈ head.text, isHeadSign character = true := by
  have gapSign : ∀ other, Text.isGap other = true → isHeadSign other = true :=
    fun other gap => isHeadSign_of_isBlank
      (Text.isBlank_of_isAsciiBlank (Text.isAsciiBlank_of_isGap gap))
  have keyword : "condition".toList.all isHeadSign = true := by decide
  intro character member
  unfold BlockHead.text at member
  generalize "condition".toList = word at keyword member
  simp only [List.mem_append, List.mem_cons, List.not_mem_nil, or_false] at member
  rcases member with inKeyword | inGap | named | rfl | declared | rfl | inBetween | rfl
  · exact List.all_eq_true.mp keyword character inKeyword
  · exact gapSign character (leftmost.gap character inGap)
  · exact inName character named
  · decide
  · exact inParameters character declared
  · decide
  · exact gapSign character (leftmost.between character inBetween)
  · decide

/-- A block that is read is a head, which holds nothing but head signs, and a body.  Behind
the same head, any body that holds a suitable expression is read as well. -/
theorem exists_head_of_ofText {text : List Char} {condition : Condition}
    (read : ofText text = .ok condition) :
    ∃ head body, Text.trim text = head ++ body ∧
      (∀ character ∈ head, isHeadSign character = true) ∧
        blockExpression? body = some condition.expression.toList ∧
          ∀ {other otherBody expression}, Text.trim other = head ++ otherBody →
            blockExpression? otherBody = some expression →
            Expression.check (condition.parameters.map (·.name)) expression = .ok () →
            ofText other =
              .ok { condition with expression := String.ofList expression } := by
  unfold ofText at read
  simp only at read
  split at read
  · cases read
  · rename_i name parameters body found
    split at read
    · cases read
    · rename_i expression expressionFound
      split at read
      · rename_i identifier
        obtain ⟨declared, readDeclared, read⟩ := bind_eq_ok_iff.mp read
        split at read
        · cases read
        · obtain rfl := Except.ok.inj read
          obtain ⟨head, leftmost, rfl, rfl, split⟩ := exists_isLeftmost_of_blockHead? found
          refine ⟨head.text, body, split, ?_, ?_, ?_⟩
          · exact BlockHead.isHeadSign_of_mem leftmost
              (fun character member => isHeadSign_of_isIdentifier identifier member)
              fun character member => isHeadSign_of_readParameters readDeclared member
          · rw [String.toList_ofList]
            exact expressionFound
          · intro other otherBody otherExpression trimmed otherFound checked
            have otherHead : blockHead? (Text.trim other) =
                some (head.name, head.parameters, otherBody) := by
              rw [trimmed, leftmost.blockHead?_append]
            unfold ofText
            simp only [otherHead, otherFound, identifier, readDeclared, if_true]
            refine bind_eq_ok_iff.mpr ⟨declared, rfl, ?_⟩
            rw [checked]
            rfl
      · cases read

end Condition

end Rebac
