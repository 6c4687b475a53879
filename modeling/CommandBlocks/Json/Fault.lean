import CommandBlocks.Json.Writing
import CommandBlocks.Text.Quoted

namespace CommandBlocks.Json

/-- What a text holds where a value was expected, as far as it is read to say so. -/
inductive Found where
  | null
  | boolean (b : Bool)
  | number (n : Number)
  | string (s : String)
  | sequence
  | map
  | unitVariant
  deriving Repr

def Found.text : Found → String
  | null => "null"
  | boolean b => s!"boolean `{b}`"
  | number (.integer n) => s!"integer `{n}`"
  | number (.binary x) => "floating point `" ++ (Number.binary x).text ++ "`"
  | string s => "string " ++ Text.quoted s
  | sequence => "sequence"
  | map => "map"
  | unitVariant => "unit variant"

inductive Fault where
  | endOfValue
  | endOfList
  | endOfObject
  | endOfString
  | noValue
  | noLiteral
  | noColon
  | noListEnd
  | noObjectEnd
  | trailingComma
  | trailingCharacters
  | noKey
  | invalidNumber
  | numberOutOfRange
  | invalidEscape
  | controlCharacter
  /-- A surrogate that is not the first of a pair, or is followed by no second one. -/
  | loneSurrogate
  /-- The first surrogate of a pair without another escape behind it. -/
  | unpairedSurrogate
  | tooDeep
  | missingField (name : String)
  | repeatedField (name : String)
  | wrongType (found : Found) (expected : String)
  | wrongValue (found : Found) (expected : String)
  | tooShort (length : Nat) (expected : String)
  | unknownVariant (name : String) (known : List String)
  deriving Repr

/-- A choice of names in a message: one name, one or the other, or one of several. -/
def namesText (names : List String) : String :=
  match names.map fun name => "`" ++ name ++ "`" with
  | [first, second] => first ++ " or " ++ second
  | [first] => first
  | several => "one of " ++ ", ".intercalate several

def Fault.message : Fault → String
  | endOfValue => "EOF while parsing a value"
  | endOfList => "EOF while parsing a list"
  | endOfObject => "EOF while parsing an object"
  | endOfString => "EOF while parsing a string"
  | noValue => "expected value"
  | noLiteral => "expected ident"
  | noColon => "expected `:`"
  | noListEnd => "expected `,` or `]`"
  | noObjectEnd => "expected `,` or `\x7d`"
  | trailingComma => "trailing comma"
  | trailingCharacters => "trailing characters"
  | noKey => "key must be a string"
  | invalidNumber => "invalid number"
  | numberOutOfRange => "number out of range"
  | invalidEscape => "invalid escape"
  | controlCharacter => "control character (\\u0000-\\u001F) found while parsing a string"
  | loneSurrogate => "lone leading surrogate in hex escape"
  | unpairedSurrogate => "unexpected end of hex escape"
  | tooDeep => "recursion limit exceeded"
  | missingField name => s!"missing field `{name}`"
  | repeatedField name => s!"duplicate field `{name}`"
  | wrongType found expected => s!"invalid type: {found.text}, expected {expected}"
  | wrongValue found expected => s!"invalid value: {found.text}, expected {expected}"
  | tooShort length expected => s!"invalid length {length}, expected {expected}"
  | unknownVariant name known => s!"unknown variant `{name}`, expected {namesText known}"

end CommandBlocks.Json
