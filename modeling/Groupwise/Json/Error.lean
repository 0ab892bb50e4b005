import Groupwise.Shape

namespace Groupwise.Json

inductive Place where
  | value
  | list
  | object
  | string
  deriving DecidableEq, Repr

inductive Fault where
  | ended (inside : Place)
  | expectedValue
  | expectedWord
  | expectedColon
  | expectedCommaOrBrace
  | expectedCommaOrBracket
  | keyNotString
  | trailingComma
  | trailingCharacters
  | invalidNumber
  | numberTooLarge
  | invalidEscape
  | loneSurrogate
  | unpairedSurrogate
  | controlCharacter
  | tooDeep
  deriving DecidableEq, Repr

def Place.description : Place → String
  | .value => "a value"
  | .list => "a list"
  | .object => "an object"
  | .string => "a string"

def Fault.message : Fault → String
  | .ended inside => s!"EOF while parsing {inside.description}"
  | .expectedValue => "expected value"
  | .expectedWord => "expected ident"
  | .expectedColon => "expected `:`"
  | .expectedCommaOrBrace => "expected `,` or `\x7d`"
  | .expectedCommaOrBracket => "expected `,` or `]`"
  | .keyNotString => "key must be a string"
  | .trailingComma => "trailing comma"
  | .trailingCharacters => "trailing characters"
  | .invalidNumber => "invalid number"
  | .numberTooLarge => "number out of range"
  | .invalidEscape => "invalid escape"
  | .loneSurrogate => "lone leading surrogate in hex escape"
  | .unpairedSurrogate => "unexpected end of hex escape"
  | .controlCharacter => "control character (\\u0000-\\u001F) found while parsing a string"
  | .tooDeep => "recursion limit exceeded"

inductive Error where
  | text (fault : Fault)
  | shape (fault : Shape.Fault)
  deriving DecidableEq, Repr

def Error.message : Error → String
  | .text fault => fault.message
  | .shape fault => fault.message

inductive Category where
  | ended
  | malformed
  | misshapen
  deriving DecidableEq, Repr

def Error.category : Error → Category
  | .text (.ended _) => .ended
  | .text _ => .malformed
  | .shape _ => .misshapen

end Groupwise.Json
