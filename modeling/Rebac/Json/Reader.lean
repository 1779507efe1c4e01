import Rebac.Json.Number
import Rebac.Text.Blank

/-!
# Reading JSON text

Values nest at most 127 levels deep.  Besides the levels that remain, the
reader is given a budget of steps; a step that opens or continues a value
spends one, and every two of them consume a character.  So twice the length of
the text is always enough, and a larger budget reads the same value
(`readFirst_eq_readValue`).  Members that share a key are collapsed only when the
whole value has been read.
-/

namespace Rebac.Json

/-- The code unit that the first four characters spell. -/
def hexUnit? : List Char → Option Nat
  | first :: second :: third :: fourth :: _ => do
      let first ← Numeral.digit? 16 first
      let second ← Numeral.digit? 16 second
      let third ← Numeral.digit? 16 third
      let fourth ← Numeral.digit? 16 fourth
      some (((first * 16 + second) * 16 + third) * 16 + fourth)
  | _ => none

/-- Read the four digits of a hexadecimal escape. -/
def readHexUnit (text : List Char) : Except Fault (Nat × List Char) :=
  match hexUnit? text with
  | some unit => .ok (unit, text.drop 4)
  | none =>
      if Text.byteSize text < 4 then .error (Fault.at .endInString [])
      else .error (Fault.after .invalidEscape text 4)

def isTrailingSurrogate (unit : Nat) : Bool :=
  0xDC00 ≤ unit && unit ≤ 0xDFFF

def isLeadingSurrogate (unit : Nat) : Bool :=
  0xD800 ≤ unit && unit ≤ 0xDBFF

/-- Read the second half of a surrogate pair. -/
def readTrailingSurrogate (leading : Nat) :
    List Char → Except Fault (Char × List Char)
  | '\\' :: 'u' :: rest =>
      match readHexUnit rest with
      | .error fault => .error fault
      | .ok (trailing, rest) =>
          if isTrailingSurrogate trailing then
            .ok (Char.ofNat
              ((leading - 0xD800) * 0x400 + (trailing - 0xDC00) + 0x10000), rest)
          else .error (Fault.after .loneSurrogate rest 0)
  | ['\\'] => .error (Fault.at .endInString [])
  | '\\' :: rest => .error (Fault.after .unexpectedEndOfEscape rest 1)
  | [] => .error (Fault.at .endInString [])
  | rest => .error (Fault.after .unexpectedEndOfEscape rest 1)

/-- Read what follows the `u` of an escape. -/
def readUnicodeEscape (text : List Char) : Except Fault (Char × List Char) :=
  match readHexUnit text with
  | .error fault => .error fault
  | .ok (unit, rest) =>
      if isTrailingSurrogate unit then .error (Fault.after .loneSurrogate rest 0)
      else if isLeadingSurrogate unit then readTrailingSurrogate unit rest
      else .ok (Char.ofNat unit, rest)

def shortEscape? : Char → Option Char
  | '"' => some '"'
  | '\\' => some '\\'
  | '/' => some '/'
  | 'b' => some '\x08'
  | 'f' => some '\x0c'
  | 'n' => some '\n'
  | 'r' => some '\r'
  | 't' => some '\t'
  | _ => none

/-- Read what follows the backslash of an escape. -/
def readEscape : List Char → Except Fault (Char × List Char)
  | [] => .error (Fault.at .endInString [])
  | 'u' :: rest => readUnicodeEscape rest
  | character :: rest =>
      match shortEscape? character with
      | some meant => .ok (meant, rest)
      | none => .error (Fault.after .invalidEscape (character :: rest) 1)

theorem length_of_readHexUnit {text rest : List Char} {unit : Nat}
    (read : readHexUnit text = .ok (unit, rest)) : rest.length ≤ text.length := by
  unfold readHexUnit at read
  split at read
  · obtain ⟨_, rfl⟩ := by simpa using read
    simp only [List.length_drop]
    omega
  · split at read <;> simp at read

theorem length_of_readTrailingSurrogate {leading : Nat} {text rest : List Char}
    {character : Char}
    (read : readTrailingSurrogate leading text = .ok (character, rest)) :
    rest.length ≤ text.length := by
  unfold readTrailingSurrogate at read
  split at read
  · split at read
    · simp at read
    · rename_i found
      split at read
      · obtain ⟨_, rfl⟩ := by simpa using read
        have shorter := length_of_readHexUnit found
        simp only [List.length_cons]
        omega
      · simp at read
  · simp at read
  · simp at read
  · simp at read
  · simp at read

theorem length_of_readEscape {text rest : List Char} {character : Char}
    (read : readEscape text = .ok (character, rest)) :
    rest.length ≤ text.length := by
  unfold readEscape at read
  split at read
  · simp at read
  · unfold readUnicodeEscape at read
    split at read
    · simp at read
    · rename_i found
      have shorter := length_of_readHexUnit found
      simp only [List.length_cons]
      split at read
      · simp at read
      · split at read
        · have shorter' := length_of_readTrailingSurrogate read
          omega
        · obtain ⟨_, rfl⟩ := by simpa using read
          omega
  · split at read
    · obtain ⟨_, rfl⟩ := by simpa using read
      simp
    · simp at read

/-- Read a string whose opening quote and first characters, held in reverse,
have been read. -/
def readString (reversed : List Char) (text : List Char) :
    Except Fault (List Char × List Char) :=
  match text with
  | [] => .error (Fault.at .endInString [])
  | '"' :: rest => .ok (reversed.reverse, rest)
  | '\\' :: rest =>
      match _read : readEscape rest with
      | .error fault => .error fault
      | .ok (character, rest) => readString (character :: reversed) rest
  | character :: rest =>
      if character.toNat < 0x20 then
        .error (Fault.after .controlCharacter (character :: rest) 1)
      else readString (character :: reversed) rest
termination_by text.length
decreasing_by
  all_goals simp only [List.length_cons]
  · exact Nat.lt_succ_of_le (length_of_readEscape _read)
  · omega

/-- Read the rest of a word. -/
def readWord : List Char → List Char → Except Fault (List Char)
  | [], text => .ok text
  | _ :: _, [] => .error (Fault.at .endInValue [])
  | expected :: word, character :: rest =>
      if character = expected then readWord word rest
      else .error (Fault.after .expectedWord (character :: rest) 1)

/-- Read the key of a member and the colon after it. -/
def readKey : List Char → Except Fault (String × List Char)
  | '"' :: rest =>
      match readString [] rest with
      | .error fault => .error fault
      | .ok (key, rest) =>
          match Text.skipGap rest with
          | [] => .error (Fault.at .endInObject [])
          | ':' :: rest => .ok (String.ofList key, rest)
          | rest => .error (Fault.at .expectedColon rest)
  | text => .error (Fault.at .keyNotString text)

theorem length_of_readWord {word text rest : List Char}
    (read : readWord word text = .ok rest) : rest.length ≤ text.length := by
  fun_induction readWord word text with
  | case1 => simp_all
  | case2 => simp at read
  | case3 =>
      rename_i induction
      have shorter := induction read
      simp only [List.length_cons]
      omega
  | case4 => simp at read

theorem length_of_readString {reversed text value rest : List Char}
    (read : readString reversed text = .ok (value, rest)) :
    rest.length < text.length := by
  fun_induction readString reversed text with
  | case1 => simp at read
  | case2 => simp_all
  | case3 => simp at read
  | case4 =>
      rename_i found induction
      have shorter := length_of_readEscape found
      have shorter' := induction read
      simp only [List.length_cons]
      omega
  | case5 => simp at read
  | case6 =>
      rename_i induction
      have shorter := induction read
      simp only [List.length_cons]
      omega

theorem length_of_readKey {text rest : List Char} {key : String}
    (read : readKey text = .ok (key, rest)) : rest.length < text.length := by
  unfold readKey at read
  split at read
  · split at read
    · simp at read
    · rename_i found
      have shorter := length_of_readString found
      split at read
      · simp at read
      · rename_i start
        have shorter' := Text.length_lt_of_skipGap start
        obtain ⟨_, rfl⟩ := by simpa using read
        simp only [List.length_cons]
        omega
      · simp at read
  · simp at read

mutual

/-- Read a value that may nest a number of levels. -/
def readValue : Nat → Nat → List Char → Except Fault (Json × List Char)
  | 0, _, text => .error (Fault.at .endInValue text)
  | budget + 1, levels, text =>
      match Text.skipGap text with
      | [] => .error (Fault.at .endInValue [])
      | 'n' :: rest => (readWord "ull".toList rest).map (.null, ·)
      | 't' :: rest => (readWord "rue".toList rest).map (.bool true, ·)
      | 'f' :: rest => (readWord "alse".toList rest).map (.bool false, ·)
      | '"' :: rest =>
          (readString [] rest).map fun (text, rest) => (.ofText text, rest)
      | '[' :: rest =>
          if levels = 0 then .error (Fault.at .recursionLimit ('[' :: rest))
          else
            match Text.skipGap rest with
            | [] => .error (Fault.at .endInList [])
            | ']' :: rest => .ok (.array [], rest)
            | rest => readItems budget (levels - 1) [] rest
      | '\x7b' :: rest =>
          if levels = 0 then .error (Fault.at .recursionLimit ('\x7b' :: rest))
          else
            match Text.skipGap rest with
            | [] => .error (Fault.at .endInObject [])
            | '\x7d' :: rest => .ok (.object [], rest)
            | rest => readMembers budget (levels - 1) [] rest
      | character :: rest =>
          if character = '-' || character.isDigit then
            (readNumber (character :: rest)).map fun (numeral, rest) =>
              (.number numeral, rest)
          else .error (Fault.at .expectedValue (character :: rest))

/-- Read the items of a list, given the previous ones in reverse. -/
def readItems : Nat → Nat → List Json → List Char →
    Except Fault (Json × List Char)
  | 0, _, _, text => .error (Fault.at .endInList text)
  | budget + 1, levels, reversed, text =>
      match readValue budget levels text with
      | .error fault => .error fault
      | .ok (item, rest) =>
          match Text.skipGap rest with
          | [] => .error (Fault.at .endInList [])
          | ']' :: rest => .ok (.array (item :: reversed).reverse, rest)
          | ',' :: rest =>
              match Text.skipGap rest with
              | [] => .error (Fault.at .endInValue [])
              | ']' :: rest => .error (Fault.at .trailingComma (']' :: rest))
              | rest => readItems budget levels (item :: reversed) rest
          | rest => .error (Fault.at .expectedListSeparator rest)

/-- Read the members of an object, given the previous ones in reverse. -/
def readMembers : Nat → Nat → List (String × Json) → List Char →
    Except Fault (Json × List Char)
  | 0, _, _, text => .error (Fault.at .endInObject text)
  | budget + 1, levels, reversed, text =>
      match readKey text with
      | .error fault => .error fault
      | .ok (key, rest) =>
          match readValue budget levels rest with
          | .error fault => .error fault
          | .ok (value, rest) =>
              let reversed := (key, value) :: reversed
              match Text.skipGap rest with
              | [] => .error (Fault.at .endInObject [])
              | '\x7d' :: rest => .ok (.object reversed.reverse, rest)
              | ',' :: rest =>
                  match Text.skipGap rest with
                  | [] => .error (Fault.at .endInValue [])
                  | '\x7d' :: rest =>
                      .error (Fault.at .trailingComma ('\x7d' :: rest))
                  | rest => readMembers budget levels reversed rest
              | rest => .error (Fault.at .expectedObjectSeparator rest)

end

/-- How deep values may nest. -/
def maximalDepth : Nat := 127

/-- Read the value that a text starts with. -/
def readFirst (levels : Nat) (text : List Char) : Except Fault (Json × List Char) :=
  readValue (2 * text.length + 2) levels text

def readDocument (text : List Char) : Except Fault Json :=
  match readFirst maximalDepth text with
  | .error fault => .error fault
  | .ok (value, rest) =>
      match Text.skipGap rest with
      | [] => .ok value
      | rest => .error (Fault.at .trailingCharacters rest)

/-- Read a text that holds exactly one JSON value. -/
def read (text : List Char) : Except Error Json :=
  match readDocument text with
  | .error fault => .error (fault.locate text)
  | .ok value => .ok value.collapse

end Rebac.Json
