import Rebac.Text.Printable

/-!
# Quoted texts

Log lines show strings in double quotes, on one line: quotes and backslashes
are escaped, and characters that cannot be printed are written as escapes.
-/

namespace Rebac.Text

def escapeQuoted (character : Char) : List Char :=
  match character with
  | '\x00' => ['\\', '0']
  | '\t' => ['\\', 't']
  | '\n' => ['\\', 'n']
  | '\r' => ['\\', 'r']
  | '"' => ['\\', '"']
  | '\\' => ['\\', '\\']
  | other =>
      if isPrintable other then [other]
      else "\\u\x7b".toList ++ Nat.toDigits 16 other.toNat ++ ['\x7d']

def quoted (text : List Char) : List Char :=
  '"' :: text.flatMap escapeQuoted ++ ['"']

end Rebac.Text
