import ClassSchema.Json.Basic
import ClassSchema.Text.Quoted

/-!
# What is wrong with a JSON text

A text can break the grammar of JSON, hold a value of a wrong type where the format of the file wants another one, or
break a rule of the format. `JsonFault.text` words each of these.
-/

namespace ClassSchema

/-- What a value of the wrong type is. -/
inductive FoundValue where
  | null
  | bool (value : Bool)
  | number (value : JsonNumber)
  | string (value : String)
  | sequence
  | map
  deriving DecidableEq, Repr

/-- The words for a value of the wrong type. -/
def FoundValue.text : FoundValue → String
  | .null => "null"
  | .bool value => s!"boolean `{value}`"
  | .number (.integer value) => s!"integer `{value}`"
  | .number (.float value) => "floating point `" ++ (JsonNumber.float value).render ++ "`"
  | .string value => "string " ++ quoted value
  | .sequence => "sequence"
  | .map => "map"

/-- What the format of a file wants. -/
inductive WantedValue where
  | modelFile | map | sequence | string
  deriving DecidableEq, Repr

/-- The words for what is wanted. -/
def WantedValue.text : WantedValue → String
  | .modelFile => "struct ModelFile"
  | .map => "a map"
  | .sequence => "a sequence"
  | .string => "a string"

/-- The first thing that is wrong with a text. -/
inductive JsonFault where
  /-- The text ends where a value, or the rest of one, is wanted. -/
  | endInValue
  | endInString
  | endInObject
  | endInArray
  | expectedValue
  /-- A letter starts `null`, `true` or `false`, and a wrong one follows. -/
  | expectedIdent
  | expectedColon
  | expectedItemEnd
  | expectedMemberEnd
  | invalidNumber
  | numberOutOfRange
  | controlCharacter
  | invalidEscape
  /-- An escaped code unit of the second half of a pair, or one of the first half without its second. -/
  | loneSurrogate
  /-- An escaped code unit of the first half of a pair, and no second escape after it. -/
  | endOfEscape
  | keyNotString
  | trailingComma
  | trailingCharacters
  /-- More brackets inside one another than the limit allows. -/
  | tooManyBrackets
  | invalidType (found : FoundValue) (wanted : WantedValue)
  | unknownField (name : String)
  | duplicateField (name : String)
  /-- A property is neither a string nor a list of strings nor an object with a doc comment. -/
  | noPropertyForm
  deriving DecidableEq, Repr

/-- The words for a fault, without its position. -/
def JsonFault.text : JsonFault → String
  | .endInValue => "EOF while parsing a value"
  | .endInString => "EOF while parsing a string"
  | .endInObject => "EOF while parsing an object"
  | .endInArray => "EOF while parsing a list"
  | .expectedValue => "expected value"
  | .expectedIdent => "expected ident"
  | .expectedColon => "expected `:`"
  | .expectedItemEnd => "expected `,` or `]`"
  | .expectedMemberEnd => "expected `,` or `\x7d`"
  | .invalidNumber => "invalid number"
  | .numberOutOfRange => "number out of range"
  | .controlCharacter => "control character (\\u0000-\\u001F) found while parsing a string"
  | .invalidEscape => "invalid escape"
  | .loneSurrogate => "lone leading surrogate in hex escape"
  | .endOfEscape => "unexpected end of hex escape"
  | .keyNotString => "key must be a string"
  | .trailingComma => "trailing comma"
  | .trailingCharacters => "trailing characters"
  | .tooManyBrackets => "recursion limit exceeded"
  | .invalidType found wanted => s!"invalid type: {found.text}, expected {wanted.text}"
  | .unknownField name => s!"unknown field `{name}`, expected `enums` or `classes`"
  | .duplicateField name => s!"duplicate field `{name}`"
  | .noPropertyForm => "data did not match any variant of untagged enum PropertySpec"

end ClassSchema
