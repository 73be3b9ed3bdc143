import DocSheet.Json.Number
import DocSheet.Text.Quoted

/-!
# Errors of JSON reading

Each cause is a constructor; `Error.message` holds the wording. A text is read in one
pass towards an expected type, so an error is the first problem in it.
-/

namespace DocSheet.Json

/-- What stands where something else was expected. -/
inductive Found
  | null
  | boolean (value : Bool)
  | number (value : Number)
  | string (value : String)
  | list
  | object
  /-- The bare name of a variant that needs content. -/
  | bareVariant
  deriving DecidableEq, Repr

namespace Found

def describe : Found → String
  | null => "null"
  | boolean true => "boolean `true`"
  | boolean false => "boolean `false`"
  | number (.integer n) => "integer `" ++ (Number.integer n).text ++ "`"
  | number value => "floating point `" ++ value.text ++ "`"
  | string value => "string " ++ Text.quoted value
  | list => "sequence"
  | object => "map"
  | bareVariant => "unit variant"

end Found

inductive Error
  | endInValue
  | endInString
  | endInList
  | endInObject
  | expectedValue
  | expectedWord
  | expectedColon
  | expectedListEnd
  | expectedObjectEnd
  | keyNotString
  | trailingComma
  | trailingCharacters
  | invalidNumber
  | numberOutOfRange
  | invalidEscape
  | loneSurrogate
  | halfSurrogatePair
  | controlCharacter
  | tooDeep
  | wrongType (found : Found) (expected : String)
  | wrongLength (length : Nat) (expected : String)
  | unknownVariant (name : String) (known : List String)
  | duplicateField (name : String)
  | missingField (name : String)
  | noVariantMatches (type : String)
  deriving DecidableEq, Repr

namespace Error

def inBackquotes (name : String) : String :=
  "`" ++ name ++ "`"

/-- A choice between names: two are joined by a word, more stand in a list. -/
def choice : List String → String
  | [] => "there are no variants"
  | [one] => inBackquotes one
  | [one, other] => inBackquotes one ++ " or " ++ inBackquotes other
  | names => "one of " ++ String.intercalate ", " (names.map inBackquotes)

def message : Error → String
  | endInValue => "EOF while parsing a value"
  | endInString => "EOF while parsing a string"
  | endInList => "EOF while parsing a list"
  | endInObject => "EOF while parsing an object"
  | expectedValue => "expected value"
  | expectedWord => "expected ident"
  | expectedColon => "expected `:`"
  | expectedListEnd => "expected `,` or `]`"
  | expectedObjectEnd => "expected `,` or `\x7d`"
  | keyNotString => "key must be a string"
  | trailingComma => "trailing comma"
  | trailingCharacters => "trailing characters"
  | invalidNumber => "invalid number"
  | numberOutOfRange => "number out of range"
  | invalidEscape => "invalid escape"
  | loneSurrogate => "lone leading surrogate in hex escape"
  | halfSurrogatePair => "unexpected end of hex escape"
  | controlCharacter => "control character (\\u0000-\\u001F) found while parsing a string"
  | tooDeep => "recursion limit exceeded"
  | wrongType found expected => "invalid type: " ++ found.describe ++ ", expected " ++ expected
  | wrongLength length expected =>
    "invalid length " ++ toString length ++ ", expected " ++ expected
  | unknownVariant name known =>
    "unknown variant " ++ inBackquotes name ++ ", expected " ++ choice known
  | duplicateField name => "duplicate field " ++ inBackquotes name
  | missingField name => "missing field " ++ inBackquotes name
  | noVariantMatches type => "data did not match any variant of untagged enum " ++ type

end Error

end DocSheet.Json
