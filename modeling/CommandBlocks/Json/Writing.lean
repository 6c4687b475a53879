import CommandBlocks.Decimal.Style
import CommandBlocks.Json

namespace CommandBlocks.Json

private def lowHexDigit (n : Nat) : Char := Nat.digitChar (n % 16)

/-- How one character is written inside a JSON string. Only quotes, backslashes and the characters
    below U+0020 are escaped. -/
def escapedChar (c : Char) : List Char :=
  match c with
  | '"' => ['\\', '"']
  | '\\' => ['\\', '\\']
  | '\x08' => ['\\', 'b']
  | '\x0c' => ['\\', 'f']
  | '\n' => ['\\', 'n']
  | '\r' => ['\\', 'r']
  | '\t' => ['\\', 't']
  | c =>
    if c.toNat < 0x20 then ['\\', 'u', '0', '0', lowHexDigit (c.toNat / 16), lowHexDigit c.toNat]
    else [c]

/-- A text as a JSON string. -/
def stringText (s : String) : String := .ofList ('"' :: s.toList.flatMap escapedChar ++ ['"'])

/-- A number as JSON. There is no number for infinities and NaN, which are written as `null`. -/
def Number.text : Number → String
  | .integer n => toString n
  | .binary x => if x.isFinite then Decimal.Style.json.write x else "null"

private def scalarText : Json → String
  | boolean true => "true"
  | boolean false => "false"
  | number n => n.text
  | string s => stringText s
  | _ => "null"

/-- How the parts of arrays and objects are set apart, at some level of nesting. -/
structure Layout where
  /-- What stands before each part, for the level of the part. -/
  before : Nat → String
  /-- What stands before the closing bracket, for the level of the bracket. -/
  closing : Nat → String
  /-- What stands between a key and its value. -/
  colon : String

/-- All on one line, without blanks. -/
def Layout.compact : Layout := ⟨fun _ => "", fun _ => "", ":"⟩

private def newLine (level : Nat) : String := .ofList ('\n' :: List.replicate (2 * level) ' ')

/-- Each part on a line of its own, two blanks deeper than the brackets around it. -/
def Layout.indented : Layout := ⟨newLine, newLine, ": "⟩

private def bracketed (layout : Layout) (level : Nat) (opening ending : String)
    (parts : List String) : String :=
  if parts.isEmpty then opening ++ ending
  else opening ++ ",".intercalate (parts.map (layout.before (level + 1) ++ ·))
    ++ layout.closing level ++ ending

mutual

/-- The text of a value at a level of nesting. -/
def write (layout : Layout) (level : Nat) : Json → String
  | array items => bracketed layout level "[" "]" (writeItems layout (level + 1) items)
  | object members =>
    bracketed layout level "\x7b" "\x7d" (writeMembers layout (level + 1) members)
  | scalar => scalarText scalar

def writeItems (layout : Layout) (level : Nat) : List Json → List String
  | [] => []
  | value :: rest => value.write layout level :: writeItems layout level rest

def writeMembers (layout : Layout) (level : Nat) : List (String × Json) → List String
  | [] => []
  | member :: rest => writeMember layout level member :: writeMembers layout level rest

def writeMember (layout : Layout) (level : Nat) : String × Json → String
  | (key, value) => stringText key ++ layout.colon ++ value.write layout level

end

/-- The text of a value on one line. -/
def compact (value : Json) : String := value.write .compact 0

/-- The text of a value over several lines. -/
def pretty (value : Json) : String := value.write .indented 0

end CommandBlocks.Json
