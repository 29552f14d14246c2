/-!
What is wrong with a text that is no JSON text. A text that ends too early is told apart from one
that goes wrong before its end.
-/

namespace SqlGrammar.Json

inductive Fault
  /-- The text ends where a value should stand. -/
  | endInValue
  /-- The text ends inside of a word. -/
  | endInWord
  /-- The text ends inside of a numeral. -/
  | endInNumeral
  | endInList
  | endInObject
  | endInString
  | expectedValue
  | expectedWord
  | expectedColon
  | expectedListEnd
  | expectedObjectEnd
  | trailingComma
  | trailingText
  | keyNotString
  | badNumber
  | numberRange
  | badEscape
  | cutSurrogate
  | loneSurrogate
  | controlCharacter
  | tooDeep
  deriving DecidableEq, Inhabited

namespace Fault

/-- The text ended too early: more of it could mend it. -/
def isEnd : Fault → Bool
  | endInValue | endInWord | endInNumeral | endInList | endInObject | endInString => true
  | _ => false

/-- The wording of a fault; where it stands is no part of it. -/
def message : Fault → String
  | endInValue | endInWord | endInNumeral => "EOF while parsing a value"
  | endInList => "EOF while parsing a list"
  | endInObject => "EOF while parsing an object"
  | endInString => "EOF while parsing a string"
  | expectedValue => "expected value"
  | expectedWord => "expected ident"
  | expectedColon => "expected `:`"
  | expectedListEnd => "expected `,` or `]`"
  | expectedObjectEnd => "expected `,` or `\x7d`"
  | trailingComma => "trailing comma"
  | trailingText => "trailing characters"
  | keyNotString => "key must be a string"
  | badNumber => "invalid number"
  | numberRange => "number out of range"
  | badEscape => "invalid escape"
  | cutSurrogate => "unexpected end of hex escape"
  | loneSurrogate => "lone leading surrogate in hex escape"
  | controlCharacter => "control character (\\u0000-\\u001F) found while parsing a string"
  | tooDeep => "recursion limit exceeded"

end Fault

end SqlGrammar.Json
