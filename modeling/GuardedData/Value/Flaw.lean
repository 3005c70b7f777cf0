import GuardedData.Text.Basic

/-!
# Flaws of a text

What can be wrong with the text of a value. A failure also says how many bytes of the text follow
the place; the place is after the offending character, whether that was read or only looked at.
-/

namespace GuardedData.Value

/-- What is wrong with a text. -/
inductive Flaw
  | endInValue
  | endInArray
  | endInObject
  | endInString
  | expectedColon
  | expectedArrayEnd
  | expectedObjectEnd
  | expectedWord
  | expectedValue
  | keyNotString
  | trailingComma
  | trailingCharacters
  | invalidNumber
  | numberOutOfRange
  | invalidEscape
  | loneSurrogate
  | brokenSurrogatePair
  | controlCharacter
  | tooDeep

def Flaw.message : Flaw → String
  | .endInValue => "EOF while parsing a value"
  | .endInArray => "EOF while parsing a list"
  | .endInObject => "EOF while parsing an object"
  | .endInString => "EOF while parsing a string"
  | .expectedColon => "expected `:`"
  | .expectedArrayEnd => "expected `,` or `]`"
  | .expectedObjectEnd => "expected `,` or `\x7d`"
  | .expectedWord => "expected ident"
  | .expectedValue => "expected value"
  | .keyNotString => "key must be a string"
  | .trailingComma => "trailing comma"
  | .trailingCharacters => "trailing characters"
  | .invalidNumber => "invalid number"
  | .numberOutOfRange => "number out of range"
  | .invalidEscape => "invalid escape"
  | .loneSurrogate => "lone leading surrogate in hex escape"
  | .brokenSurrogatePair => "unexpected end of hex escape"
  | .controlCharacter => "control character (\\u0000-\\u001F) found while parsing a string"
  | .tooDeep => "recursion limit exceeded"

/-- A flaw with the number of bytes that follow its place. -/
structure Failure where
  flaw : Flaw
  behind : Nat

/-- The result of reading from the front of a text, with the rest of it. -/
abbrev Read (α : Type) := Except Failure (α × List Char)

/-- A flaw before the rest of a text. -/
def failHere {α : Type} (flaw : Flaw) (rest : List Char) : Read α :=
  .error ⟨flaw, Position.bytes rest⟩

/-- A flaw one byte into the rest of a text, or at its end. -/
def failNext {α : Type} (flaw : Flaw) (rest : List Char) : Read α :=
  .error ⟨flaw, Position.bytes rest - 1⟩

/-- What is wrong with a text, and where. -/
structure ReadError where
  flaw : Flaw
  position : Position

def ReadError.message (e : ReadError) : String :=
  s!"{e.flaw.message} at line {e.position.line} column {e.position.column}"

end GuardedData.Value
