import Rebac.Json.Reader
import Rebac.Json.Writer
import Rebac.Proofs.Outcome

/-!
# Reading printed JSON

The pretty form of a value without numbers is read as that value, whatever
follows it, as long as the value nests no deeper than the reader allows and its
objects name every member once.  The length of the printed text bounds the budget
that the reader needs for it.
-/

namespace Rebac.Json

theorem digit?_hexCharacter {value : Nat} (small : value < 16) :
    Numeral.digit? 16 (hexCharacter value) = some value := by
  revert value
  decide

theorem readEscape_control {character : Char} (control : character.toNat < 0x20)
    (rest : List Char) :
    readEscape ("u00".toList ++ [hexCharacter (character.toNat / 16),
      hexCharacter (character.toNat % 16)] ++ rest) = .ok (character, rest) := by
  have high := digit?_hexCharacter (show character.toNat / 16 < 16 by omega)
  have low := digit?_hexCharacter (show character.toNat % 16 < 16 by omega)
  have zero : Numeral.digit? 16 '0' = some 0 := rfl
  have unit : ((0 * 16 + 0) * 16 + character.toNat / 16) * 16 + character.toNat % 16 =
      character.toNat := by
    omega
  have noTrailing : isTrailingSurrogate character.toNat = false := by
    simp only [isTrailingSurrogate, Bool.and_eq_false_iff, decide_eq_false_iff_not]
    omega
  have noLeading : isLeadingSurrogate character.toNat = false := by
    simp only [isLeadingSurrogate, Bool.and_eq_false_iff, decide_eq_false_iff_not]
    omega
  change readUnicodeEscape ('0' :: '0' :: hexCharacter (character.toNat / 16) ::
    hexCharacter (character.toNat % 16) :: rest) = _
  simp only [readUnicodeEscape, readHexUnit, hexUnit?, zero, high, low, bind, Option.bind,
    unit, noTrailing, noLeading, List.drop_succ_cons, List.drop_zero, Char.ofNat_toNat]
  rfl

theorem readString_escaped {reversed text rest : List Char} {character : Char}
    (read : readEscape text = .ok (character, rest)) :
    readString reversed ('\\' :: text) = readString (character :: reversed) rest := by
  rw [readString]
  split
  · rename_i fault failed
    rw [read] at failed
    cases failed
  · rename_i found
    rw [read] at found
    cases found
    rfl

/-- A character is read back from its escape. -/
theorem readString_escape (reversed : List Char) (character : Char) (rest : List Char) :
    readString reversed (escape character ++ rest) =
      readString (character :: reversed) rest := by
  unfold escape
  split
  · exact readString_escaped rfl
  · exact readString_escaped rfl
  · exact readString_escaped rfl
  · exact readString_escaped rfl
  · exact readString_escaped rfl
  · exact readString_escaped rfl
  · exact readString_escaped rfl
  · rename_i noQuote noBackslash _ _ _ _ _
    split
    · rename_i control
      exact readString_escaped (readEscape_control control rest)
    · rename_i printable
      rw [List.singleton_append, readString.eq_4 _ _ _ noQuote noBackslash,
        if_neg printable]

theorem readString_flatMap_escape (reversed text rest : List Char) :
    readString reversed (text.flatMap escape ++ '"' :: rest) =
      .ok (reversed.reverse ++ text, rest) := by
  induction text generalizing reversed with
  | nil => simp [readString]
  | cons character text induction =>
      rw [List.flatMap_cons, List.append_assoc, readString_escape, induction]
      simp

theorem quote_append (text rest : List Char) :
    quote text ++ rest = '"' :: (text.flatMap escape ++ '"' :: rest) := by
  simp [quote]

theorem readKey_quote (key : String) (rest : List Char) :
    readKey (quote key.toList ++ ':' :: rest) = .ok (key, rest) := by
  have colon : Text.skipGap (':' :: rest) = ':' :: rest := rfl
  rw [quote_append, readKey, readString_flatMap_escape]
  simp only [colon, List.reverse_nil, List.nil_append, String.ofList_toList]

/-- A value without numbers that nests at most some levels and whose objects name
every member once. -/
inductive IsPlain : Nat → Json → Prop where
  | null {levels : Nat} : IsPlain levels .null
  | bool {levels : Nat} (value : Bool) : IsPlain levels (.bool value)
  | string {levels : Nat} (text : String) : IsPlain levels (.string text)
  | array {levels : Nat} {items : List Json}
      (each : ∀ item ∈ items, IsPlain levels item) : IsPlain (levels + 1) (.array items)
  | object {levels : Nat} {members : List (String × Json)}
      (distinct : (members.map (·.1)).Nodup)
      (each : ∀ member ∈ members, IsPlain levels member.2) :
      IsPlain (levels + 1) (.object members)

/-- Whether the reader takes a text for a value, whatever follows the text. -/
def IsReadBack (levels : Nat) (text : List Char) (value : Json) : Prop :=
  ∀ budget rest, text.length ≤ budget →
    readValue budget levels (text ++ rest) = .ok (value, rest)

theorem skipGap_newLine (level : Nat) {text : List Char} {first : Char}
    {rest : List Char} (start : text = first :: rest) (solid : Text.isGap first = false) :
    Text.skipGap (newLine level ++ text) = text := by
  have blank : ∀ character ∈ newLine level, Text.isGap character = true := by
    intro character member
    rcases List.mem_cons.mp member with rfl | space
    · rfl
    · obtain rfl := List.eq_of_mem_replicate space
      rfl
  rw [Text.skipGap, List.dropWhile_append_of_pos blank, start,
    List.dropWhile_cons_of_neg (by simp [solid])]

/-- Whether a text starts with a character that is neither a gap nor a closing
bracket. -/
def StartsPart (closing : Char) (text : List Char) : Prop :=
  ∃ first rest, text = first :: rest ∧ Text.isGap first = false ∧ first ≠ closing

theorem StartsPart.append {closing : Char} {text : List Char}
    (starts : StartsPart closing text) (rest : List Char) :
    StartsPart closing (text ++ rest) := by
  obtain ⟨first, others, rfl, solid, notClosing⟩ := starts
  exact ⟨first, others ++ rest, rfl, solid, notClosing⟩

theorem startsPart_intercalate {closing : Char} {part : List Char}
    (starts : StartsPart closing part) (separator : List Char)
    (others : List (List Char)) :
    StartsPart closing (separator.intercalate (part :: others)) := by
  cases others with
  | nil => rwa [List.intercalate_singleton]
  | cons other others =>
      rw [List.intercalate_cons_cons, List.append_assoc]
      exact starts.append _

theorem startsPart_toPrettyAt {levels : Nat} {value : Json} (plain : IsPlain levels value)
    (level : Nat) : StartsPart ']' (value.toPrettyAt level) := by
  cases plain with
  | null => exact ⟨_, _, rfl, by decide⟩
  | bool value => cases value <;> exact ⟨_, _, rfl, by decide⟩
  | string text => exact ⟨_, _, rfl, by decide⟩
  | array each =>
      rw [toPrettyAt, layOut]
      split <;> exact ⟨_, _, rfl, by decide⟩
  | object distinct each =>
      rw [toPrettyAt, layOut]
      split <;> exact ⟨_, _, rfl, by decide⟩

/-- The pretty form of a member. -/
def memberText (level : Nat) (key : String) (value : Json) : List Char :=
  quote key.toList ++ ':' :: ' ' :: value.toPrettyAt level

theorem prettyMembers_cons (level : Nat) (key : String) (value : Json)
    (members : List (String × Json)) :
    prettyMembers level ((key, value) :: members) =
      memberText level key value :: prettyMembers level members := by
  rw [prettyMembers, memberText, List.append_assoc]
  rfl

theorem memberText_append (level : Nat) (key : String) (value : Json) (rest : List Char) :
    memberText level key value ++ rest =
      quote key.toList ++ ':' :: (' ' :: value.toPrettyAt level ++ rest) := by
  rw [memberText, List.append_assoc]
  rfl

theorem length_lt_memberText (level : Nat) (key : String) (value : Json) :
    (' ' :: value.toPrettyAt level).length < (memberText level key value).length := by
  simp only [memberText, List.length_append, List.length_cons]
  omega

theorem startsPart_memberText (level : Nat) (key : String) (value : Json) :
    StartsPart '\x7d' (memberText level key value) :=
  ⟨_, _, rfl, by decide⟩

section

variable {budget levels level outer : Nat} {text rest : List Char} {key : String}
  {value : Json}

theorem readItems_last
    (read : readValue budget levels text = .ok (value, newLine outer ++ ']' :: rest))
    (reversed : List Json) :
    readItems (budget + 1) levels reversed text =
      .ok (.array (value :: reversed).reverse, rest) := by
  have closing : Text.skipGap (newLine outer ++ ']' :: rest) = ']' :: rest :=
    skipGap_newLine outer rfl rfl
  simp only [readItems, read, closing]

theorem readItems_more
    (read : readValue budget levels text = .ok (value, ',' :: newLine level ++ rest))
    (starts : StartsPart ']' rest) (reversed : List Json) :
    readItems (budget + 1) levels reversed text =
      readItems budget levels (value :: reversed) rest := by
  obtain ⟨first, others, rfl, solid, notClosing⟩ := starts
  have comma : Text.skipGap (',' :: newLine level ++ first :: others) =
      ',' :: (newLine level ++ first :: others) := rfl
  simp only [readItems, read, comma, skipGap_newLine level rfl solid]
  split
  · rename_i empty
    cases empty
  · rename_i closing
    exact absurd (List.cons.inj closing).1 notClosing
  · rfl

theorem readMembers_last
    (read : readValue budget levels text = .ok (value, newLine outer ++ '\x7d' :: rest))
    (reversed : List (String × Json)) :
    readMembers (budget + 1) levels reversed (quote key.toList ++ ':' :: text) =
      .ok (.object ((key, value) :: reversed).reverse, rest) := by
  have closing : Text.skipGap (newLine outer ++ '\x7d' :: rest) = '\x7d' :: rest :=
    skipGap_newLine outer rfl rfl
  simp only [readMembers, readKey_quote, read, closing]

theorem readMembers_more
    (read : readValue budget levels text = .ok (value, ',' :: newLine level ++ rest))
    (starts : StartsPart '\x7d' rest) (reversed : List (String × Json)) :
    readMembers (budget + 1) levels reversed (quote key.toList ++ ':' :: text) =
      readMembers budget levels ((key, value) :: reversed) rest := by
  obtain ⟨first, others, rfl, solid, notClosing⟩ := starts
  have comma : Text.skipGap (',' :: newLine level ++ first :: others) =
      ',' :: (newLine level ++ first :: others) := rfl
  simp only [readMembers, readKey_quote, read, comma, skipGap_newLine level rfl solid]
  split
  · rename_i empty
    cases empty
  · rename_i closing
    exact absurd (List.cons.inj closing).1 notClosing
  · rfl

theorem IsReadBack.blank_cons (readBack : IsReadBack levels text value) :
    IsReadBack levels (' ' :: text) value := by
  intro budget rest enough
  rw [← readBack budget rest (Nat.le_of_succ_le enough)]
  cases budget with
  | zero => cases enough
  | succ budget =>
      have blank : Text.skipGap (' ' :: text ++ rest) = Text.skipGap (text ++ rest) := rfl
      simp only [readValue, blank]

end

section

variable {levels level : Nat} (outer : Nat) (rest : List Char)

theorem readItems_prettyItems (item : Json) {items : List Json}
    (plain : ∀ other ∈ item :: items, IsPlain levels other)
    (readBack : ∀ other ∈ item :: items,
      IsReadBack levels (other.toPrettyAt level) other)
    (budget : Nat) (reversed : List Json)
    (enough : ((',' :: newLine level).intercalate
      (prettyItems level (item :: items))).length ≤ budget) :
    readItems (budget + 1) levels reversed
        ((',' :: newLine level).intercalate (prettyItems level (item :: items)) ++
          (newLine outer ++ ']' :: rest)) =
      .ok (.array (reversed.reverse ++ item :: items), rest) := by
  have readItem := readBack item List.mem_cons_self
  induction items generalizing item budget reversed with
  | nil =>
      rw [prettyItems, prettyItems, List.intercalate_singleton] at enough ⊢
      rw [readItems_last (readItem budget _ enough), List.reverse_cons]
  | cons next items induction =>
      have starts := startsPart_intercalate
        (startsPart_toPrettyAt (plain next (by simp)) level) (',' :: newLine level)
        (prettyItems level items)
      rw [prettyItems, prettyItems, List.intercalate_cons_cons] at enough ⊢
      simp only [List.length_append, List.length_cons] at enough
      rw [List.append_assoc, List.append_assoc,
        readItems_more (readItem budget _ (by omega)) (starts.append _)]
      obtain ⟨budget, rfl⟩ : ∃ smaller, budget = smaller + 1 := ⟨budget - 1, by omega⟩
      have tail := induction next (fun other member => plain other (by simp [member]))
        (fun other member => readBack other (by simp [member])) budget (item :: reversed)
      rw [prettyItems] at tail
      rw [tail (by omega) (readBack next (by simp)), List.reverse_cons, List.append_assoc,
        List.singleton_append]

theorem readMembers_prettyMembers (key : String) (value : Json)
    {members : List (String × Json)}
    (readBack : ∀ other ∈ (key, value) :: members,
      IsReadBack levels (other.2.toPrettyAt level) other.2)
    (budget : Nat) (reversed : List (String × Json))
    (enough : ((',' :: newLine level).intercalate
      (prettyMembers level ((key, value) :: members))).length ≤ budget) :
    readMembers (budget + 1) levels reversed
        ((',' :: newLine level).intercalate
            (prettyMembers level ((key, value) :: members)) ++
          (newLine outer ++ '\x7d' :: rest)) =
      .ok (.object (reversed.reverse ++ (key, value) :: members), rest) := by
  have readValue : IsReadBack levels (' ' :: value.toPrettyAt level) value :=
    (readBack (key, value) List.mem_cons_self).blank_cons
  have shorter := length_lt_memberText level key value
  induction members generalizing key value budget reversed with
  | nil =>
      rw [prettyMembers_cons, prettyMembers, List.intercalate_singleton] at enough ⊢
      rw [memberText_append, readMembers_last (readValue budget _ (by omega)),
        List.reverse_cons]
  | cons next members induction =>
      obtain ⟨other, inner⟩ := next
      have starts := startsPart_intercalate (startsPart_memberText level other inner)
        (',' :: newLine level) (prettyMembers level members)
      rw [prettyMembers_cons, prettyMembers_cons, List.intercalate_cons_cons] at enough ⊢
      have separated : 0 < (',' :: newLine level).length := Nat.succ_pos _
      simp only [List.length_append] at enough
      rw [List.append_assoc, List.append_assoc, memberText_append,
        readMembers_more (readValue budget _ (by omega)) (starts.append _)]
      obtain ⟨budget, rfl⟩ : ∃ smaller, budget = smaller + 1 := ⟨budget - 1, by omega⟩
      have tail := induction other inner
        (fun other member => readBack other (List.mem_cons_of_mem _ member)) budget
        ((key, value) :: reversed)
      rw [prettyMembers_cons] at tail
      have readInner := readBack (other, inner) (by simp)
      rw [tail (by omega) readInner.blank_cons (length_lt_memberText level other inner),
        List.reverse_cons, List.append_assoc, List.singleton_append]

end

theorem layOut_cons_append (level : Nat) (opening closing : Char) (part : List Char)
    (parts : List (List Char)) (rest : List Char) :
    layOut level opening closing (part :: parts) ++ rest =
      opening :: (newLine (level + 1) ++
        ((',' :: newLine (level + 1)).intercalate (part :: parts) ++
          (newLine level ++ closing :: rest))) := by
  simp [layOut]

theorem length_layOut_cons (level : Nat) (opening closing : Char) (part : List Char)
    (parts : List (List Char)) :
    ((',' :: newLine (level + 1)).intercalate (part :: parts)).length + 2 ≤
      (layOut level opening closing (part :: parts)).length := by
  have layout := layOut_cons_append level opening closing part parts []
  rw [List.append_nil] at layout
  simp only [layout, List.length_cons, List.length_append]
  omega

section

variable {budget levels level : Nat} {text : List Char}

theorem readValue_list (starts : StartsPart ']' text) :
    readValue (budget + 1) (levels + 1) ('[' :: (newLine level ++ text)) =
      readItems budget levels [] text := by
  obtain ⟨first, others, rfl, solid, notClosing⟩ := starts
  have opening : Text.skipGap ('[' :: (newLine level ++ first :: others)) =
      '[' :: (newLine level ++ first :: others) := rfl
  simp only [readValue, opening, skipGap_newLine level rfl solid]
  rw [if_neg (Nat.succ_ne_zero levels)]
  split
  · rename_i empty
    cases empty
  · rename_i closing
    exact absurd (List.cons.inj closing).1 notClosing
  · rfl

theorem readValue_object (starts : StartsPart '\x7d' text) :
    readValue (budget + 1) (levels + 1) ('\x7b' :: (newLine level ++ text)) =
      readMembers budget levels [] text := by
  obtain ⟨first, others, rfl, solid, notClosing⟩ := starts
  have opening : Text.skipGap ('\x7b' :: (newLine level ++ first :: others)) =
      '\x7b' :: (newLine level ++ first :: others) := rfl
  simp only [readValue, opening, skipGap_newLine level rfl solid]
  rw [if_neg (Nat.succ_ne_zero levels)]
  split
  · rename_i empty
    cases empty
  · rename_i closing
    exact absurd (List.cons.inj closing).1 notClosing
  · rfl

end

theorem isReadBack_array {levels : Nat} (level : Nat) {items : List Json}
    (plain : ∀ item ∈ items, IsPlain levels item)
    (readBack : ∀ item ∈ items, IsReadBack levels (item.toPrettyAt (level + 1)) item) :
    IsReadBack (levels + 1) (toPrettyAt level (.array items)) (.array items) := by
  intro budget rest enough
  cases items with
  | nil =>
      obtain ⟨budget, rfl⟩ := Nat.exists_eq_add_of_le' (Nat.le_of_succ_le enough)
      rfl
  | cons item items =>
      have starts := startsPart_intercalate
        (startsPart_toPrettyAt (plain item List.mem_cons_self) (level + 1))
        (',' :: newLine (level + 1)) (prettyItems (level + 1) items)
      have shorter := length_layOut_cons level '[' ']' (item.toPrettyAt (level + 1))
        (prettyItems (level + 1) items)
      rw [toPrettyAt, prettyItems] at enough ⊢
      obtain ⟨budget, rfl⟩ := Nat.exists_eq_add_of_le' (show 2 ≤ budget by omega)
      rw [layOut_cons_append, readValue_list (starts.append _)]
      exact readItems_prettyItems level rest item plain readBack budget [] (by
        rw [prettyItems]
        omega)

theorem isReadBack_object {levels : Nat} (level : Nat) {members : List (String × Json)}
    (readBack : ∀ member ∈ members,
      IsReadBack levels (member.2.toPrettyAt (level + 1)) member.2) :
    IsReadBack (levels + 1) (toPrettyAt level (.object members)) (.object members) := by
  intro budget rest enough
  cases members with
  | nil =>
      obtain ⟨budget, rfl⟩ := Nat.exists_eq_add_of_le' (Nat.le_of_succ_le enough)
      rfl
  | cons member members =>
      obtain ⟨key, value⟩ := member
      have starts := startsPart_intercalate (startsPart_memberText (level + 1) key value)
        (',' :: newLine (level + 1)) (prettyMembers (level + 1) members)
      have shorter := length_layOut_cons level '\x7b' '\x7d'
        (memberText (level + 1) key value) (prettyMembers (level + 1) members)
      rw [toPrettyAt, prettyMembers_cons] at enough ⊢
      obtain ⟨budget, rfl⟩ := Nat.exists_eq_add_of_le' (show 2 ≤ budget by omega)
      rw [layOut_cons_append, readValue_object (starts.append _), ← prettyMembers_cons]
      exact readMembers_prettyMembers level rest key value readBack budget [] (by
        rw [prettyMembers_cons]
        omega)

theorem isReadBack_string {levels : Nat} (text : String) :
    IsReadBack levels (quote text.toList) (.string text) := by
  intro budget rest enough
  have start := quote_append text.toList rest
  have opening : Text.skipGap (quote text.toList ++ rest) =
      '"' :: (text.toList.flatMap escape ++ '"' :: rest) := by
    rw [start]
    rfl
  have positive : 1 ≤ budget := Nat.le_trans (by simp [quote]) enough
  obtain ⟨budget, rfl⟩ := Nat.exists_eq_add_of_le' positive
  simp only [readValue, opening, readString_flatMap_escape, Except.map, List.reverse_nil,
    List.nil_append, ofText, String.ofList_toList]

/-- The pretty form of a value is read as that value. -/
theorem isReadBack_toPrettyAt {levels : Nat} {value : Json}
    (plain : IsPlain levels value) (level : Nat) :
    IsReadBack levels (value.toPrettyAt level) value := by
  induction plain generalizing level with
  | null =>
      intro budget rest enough
      obtain ⟨budget, rfl⟩ := Nat.exists_eq_add_of_le' (Nat.le_of_succ_le enough)
      rfl
  | bool value =>
      intro budget rest enough
      cases value with
      | false =>
          obtain ⟨budget, rfl⟩ := Nat.exists_eq_add_of_le' (Nat.le_of_succ_le enough)
          rfl
      | true =>
          obtain ⟨budget, rfl⟩ := Nat.exists_eq_add_of_le' (Nat.le_of_succ_le enough)
          rfl
  | string text => exact isReadBack_string text
  | array each readBack =>
      exact isReadBack_array level each fun item member => readBack item member (level + 1)
  | object distinct each readBack =>
      exact isReadBack_object level fun other member => readBack other member (level + 1)

theorem put_of_not_mem {key : String} {members : List (String × Json)}
    (fresh : key ∉ members.map (·.1)) (value : Json) :
    put key value members = members ++ [(key, value)] := by
  induction members with
  | nil => rfl
  | cons member members induction =>
      simp only [List.map_cons, List.mem_cons, not_or] at fresh
      rw [put, if_neg (Ne.symm fresh.1), induction fresh.2, List.cons_append]

theorem foldl_put {earlier members : List (String × Json)}
    (distinct : ((earlier ++ members).map (·.1)).Nodup) :
    members.foldl (fun object member => put member.1 member.2 object) earlier =
      earlier ++ members := by
  induction members generalizing earlier with
  | nil => simp
  | cons member members induction =>
      have fresh : member.1 ∉ earlier.map (·.1) := by
        rw [List.map_append, List.nodup_append] at distinct
        intro known
        exact distinct.2.2 _ known _ (by simp) rfl
      rw [List.foldl_cons, put_of_not_mem fresh, induction (by simpa using distinct)]
      simp

/-- Members with distinct keys keep their order. -/
theorem ofMembers_of_nodup {members : List (String × Json)}
    (distinct : (members.map (·.1)).Nodup) : ofMembers members = .object members := by
  rw [ofMembers, foldl_put (by simpa using distinct), List.nil_append]

/-- Named data with distinct names keep their order as members. -/
theorem ofMembers_map {α : Type} {name : α → String} {items : List α}
    (distinct : (items.map name).Nodup) (value : α → Json) :
    ofMembers (items.map fun item => (name item, value item)) =
      .object (items.map fun item => (name item, value item)) := by
  apply ofMembers_of_nodup
  rw [List.map_map]
  exact distinct

theorem collapseItems_of_forall {items : List Json}
    (each : ∀ item ∈ items, item.collapse = item) : collapseItems items = items := by
  induction items with
  | nil => rfl
  | cons item items induction =>
      rw [collapseItems, each item (by simp),
        induction fun other member => each other (by simp [member])]

theorem collapseMembers_of_forall {members : List (String × Json)}
    (each : ∀ member ∈ members, member.2.collapse = member.2) :
    collapseMembers members = members := by
  induction members with
  | nil => rfl
  | cons member members induction =>
      have head := each member (by simp)
      rw [collapseMembers, head,
        induction fun other inTail => each other (by simp [inTail])]

theorem collapse_of_isPlain {levels : Nat} {value : Json} (plain : IsPlain levels value) :
    value.collapse = value := by
  induction plain with
  | null => rfl
  | bool value => rfl
  | string text => rfl
  | array each collapsed => rw [collapse, collapseItems_of_forall collapsed]
  | object distinct each collapsed =>
      rw [collapse, collapseMembers_of_forall collapsed, ofMembers_of_nodup distinct]

/-- A value in pretty form is read back. -/
theorem read_toPretty {value : Json} (plain : IsPlain maximalDepth value) :
    read value.toPretty = .ok value := by
  have readBack := isReadBack_toPrettyAt plain 0 (2 * value.toPretty.length + 2) []
    (by rw [toPretty]; omega)
  rw [List.append_nil] at readBack
  rw [read, readDocument, readFirst, toPretty] at *
  rw [readBack]
  simp [Text.skipGap, collapse_of_isPlain plain]

end Rebac.Json
