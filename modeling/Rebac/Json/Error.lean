import Rebac.Text.Lines

/-!
# Errors in JSON text

A fault is found at some place of the remaining text.  An error reports the
place as a line and a column in bytes.
-/

namespace Rebac.Json

inductive Cause where
  | endInValue
  | endInList
  | endInObject
  | endInString
  | expectedValue
  | expectedWord
  | invalidNumber
  | numberOutOfRange
  | controlCharacter
  | invalidEscape
  | loneSurrogate
  | unexpectedEndOfEscape
  | expectedListSeparator
  | expectedObjectSeparator
  | expectedColon
  | keyNotString
  | trailingComma
  | trailingCharacters
  | recursionLimit
  deriving Repr, DecidableEq

def Cause.message : Cause → String
  | .endInValue => "EOF while parsing a value"
  | .endInList => "EOF while parsing a list"
  | .endInObject => "EOF while parsing an object"
  | .endInString => "EOF while parsing a string"
  | .expectedValue => "expected value"
  | .expectedWord => "expected ident"
  | .invalidNumber => "invalid number"
  | .numberOutOfRange => "number out of range"
  | .controlCharacter =>
      "control character (\\u0000-\\u001F) found while parsing a string"
  | .invalidEscape => "invalid escape"
  | .loneSurrogate => "lone leading surrogate in hex escape"
  | .unexpectedEndOfEscape => "unexpected end of hex escape"
  | .expectedListSeparator => "expected `,` or `]`"
  | .expectedObjectSeparator => "expected `,` or `\x7d`"
  | .expectedColon => "expected `:`"
  | .keyNotString => "key must be a string"
  | .trailingComma => "trailing comma"
  | .trailingCharacters => "trailing characters"
  | .recursionLimit => "recursion limit exceeded"

/-- A cause, the text that remained, and how many bytes of it belong to the
place of the fault. -/
structure Fault where
  cause : Cause
  rest : List Char
  extra : Nat
  deriving Repr, DecidableEq

/-- A fault after the first bytes of the remaining text. -/
def Fault.after (cause : Cause) (rest : List Char) (extra : Nat) : Fault :=
  { cause, rest, extra }

/-- A fault at the first byte of the remaining text, if there is one. -/
def Fault.at (cause : Cause) (rest : List Char) : Fault :=
  { cause, rest, extra := if rest.isEmpty then 0 else 1 }

/-- A line, counted from one, and the number of bytes before a place in it. -/
structure Position where
  line : Nat
  column : Nat
  deriving Repr, DecidableEq

/-- Walk a number of bytes into a text. -/
def Position.walk : Position → Nat → List Char → Position
  | position, _, [] => position
  | position, bytes, character :: rest =>
      if bytes < character.utf8Size then
        { position with column := position.column + bytes }
      else if character = '\n' then
        walk { line := position.line + 1, column := 0 } (bytes - 1) rest
      else
        walk { position with column := position.column + character.utf8Size }
          (bytes - character.utf8Size) rest

structure Error where
  cause : Cause
  position : Position
  deriving Repr, DecidableEq

def Fault.locate (fault : Fault) (text : List Char) : Error :=
  let offset := Text.byteSize text - Text.byteSize fault.rest + fault.extra
  { cause := fault.cause
    position := Position.walk { line := 1, column := 0 } offset text }

def Error.message (error : Error) : String :=
  error.cause.message ++ " at line " ++ toString error.position.line ++
    " column " ++ toString error.position.column

end Rebac.Json
