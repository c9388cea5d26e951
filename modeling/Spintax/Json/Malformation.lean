namespace Spintax.Json

inductive Malformation where
  | endInList
  | endInObject
  | endInString
  | endInValue
  | colonWanted
  | listEndWanted
  | objectEndWanted
  | badWord
  | valueWanted
  | badEscape
  | badNumber
  | hugeNumber
  | controlCharacter
  | nameWanted
  | loneSurrogate
  | halfPair
  | trailingComma
  | trailingText
  | tooDeep
deriving DecidableEq, Repr

namespace Malformation

def isInString : Malformation → Bool
  | endInString | badEscape | controlCharacter | loneSurrogate | halfPair => true
  | _ => false

def inName (m : Malformation) : Malformation :=
  if m.isInString then m else nameWanted

def message : Malformation → String
  | endInList => "EOF while parsing a list"
  | endInObject => "EOF while parsing an object"
  | endInString => "EOF while parsing a string"
  | endInValue => "EOF while parsing a value"
  | colonWanted => "expected `:`"
  | listEndWanted => "expected `,` or `]`"
  | objectEndWanted => "expected `,` or `\x7d`"
  | badWord => "expected ident"
  | valueWanted => "expected value"
  | badEscape => "invalid escape"
  | badNumber => "invalid number"
  | hugeNumber => "number out of range"
  | controlCharacter => "control character (\\u0000-\\u001F) found while parsing a string"
  | nameWanted => "key must be a string"
  | loneSurrogate => "lone leading surrogate in hex escape"
  | halfPair => "unexpected end of hex escape"
  | trailingComma => "trailing comma"
  | trailingText => "trailing characters"
  | tooDeep => "recursion limit exceeded"

end Malformation

end Spintax.Json
