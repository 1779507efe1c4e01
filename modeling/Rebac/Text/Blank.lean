/-!
# Blank characters and trimming

Authorization models are read line by line, and three different sets of blank
characters decide where a line, a trailing comment or a token ends.  This
module names the sets and trims texts by the widest of them.  Texts under
inspection are lists of characters throughout the library.
-/

namespace Rebac.Text

/-- The Unicode property White_Space, by which lines and fields are trimmed. -/
def isBlank (character : Char) : Bool :=
  let code := character.toNat
  (9 ≤ code && code ≤ 13) || code == 0x20 || code == 0x85 || code == 0xA0 ||
    code == 0x1680 || (0x2000 ≤ code && code ≤ 0x200A) || code == 0x2028 ||
    code == 0x2029 || code == 0x202F || code == 0x205F || code == 0x3000

/-- The blanks that may stand before the `#` of a trailing comment. -/
def isAsciiBlank (character : Char) : Bool :=
  character == ' ' || character == '\t' || character == '\n' ||
    character == '\x0c' || character == '\r'

/-- The blanks that may separate two tokens. -/
def isGap (character : Char) : Bool :=
  character == ' ' || character == '\t' || character == '\n' || character == '\r'

def trimStart (text : List Char) : List Char :=
  text.dropWhile isBlank

def trimEnd (text : List Char) : List Char :=
  (text.reverse.dropWhile isBlank).reverse

def trim (text : List Char) : List Char :=
  trimEnd (trimStart text)

def skipGap (text : List Char) : List Char :=
  text.dropWhile isGap

def dropGapEnd (text : List Char) : List Char :=
  (text.reverse.dropWhile isGap).reverse

theorem isBlank_of_isAsciiBlank {character : Char}
    (blank : isAsciiBlank character = true) : isBlank character = true := by
  simp only [isAsciiBlank, Bool.or_eq_true, beq_iff_eq] at blank
  rcases blank with (((rfl | rfl) | rfl) | rfl) | rfl <;> decide

theorem isAsciiBlank_of_isGap {character : Char}
    (gap : isGap character = true) : isAsciiBlank character = true := by
  simp only [isGap, Bool.or_eq_true, beq_iff_eq] at gap
  rcases gap with ((rfl | rfl) | rfl) | rfl <;> decide

theorem length_dropWhile_le (keep : Char → Bool) (text : List Char) :
    (text.dropWhile keep).length ≤ text.length :=
  (List.dropWhile_sublist keep).length_le

theorem length_skipGap_le (text : List Char) :
    (skipGap text).length ≤ text.length :=
  length_dropWhile_le isGap text

theorem length_lt_of_skipGap {text rest : List Char} {character : Char}
    (start : skipGap text = character :: rest) :
    rest.length < text.length := by
  have shorter := length_skipGap_le text
  rw [start] at shorter
  exact shorter

end Rebac.Text
