import CommandBlocks.Decimal.Reading
import CommandBlocks.Decimal.Style
import CommandBlocks.Json
import CommandBlocks.Text.Blank
import CommandBlocks.Text.Quoted

namespace CommandBlocks

/-- A value as it was entered for a parameter. -/
inductive Value where
  | number (x : Binary64)
  | text (s : String)
  | boolean (b : Bool)
  deriving DecidableEq, Repr, Inhabited

namespace Value

/-- Whether a value counts as not entered: it is a text of blanks only. -/
def isUnset : Value → Bool
  | text s => s.toList.all Text.isBlank
  | _ => false

/-- The finite number that a value stands for: a text is read without the blanks around it, and the
    truth values stand for one and zero. -/
def number? (v : Value) : Option Binary64 :=
  let reading := match v with
    | number x => some x
    | text s => Decimal.readNumber? (Text.trim s.toList)
    | boolean b => some (.ofNat b.toNat)
  reading.filter (·.isFinite)

/-- The text of a value in messages and listings. Whole numbers below `2 ^ 63` are shown as
    integers. -/
def display : Value → String
  | number x =>
    match x.toInt? with
    | some n => toString n
    | none => Decimal.Style.plain.write x
  | text s => Text.quoted s
  | boolean b => toString b

/-- A value as JSON. Whole numbers below `2 ^ 63` are written as integers. -/
def toJson : Value → Json
  | number x =>
    match x.toInt? with
    | some n => .number (.integer n)
    | none => .number (.binary x)
  | text s => .string s
  | boolean b => .boolean b

/-- Equality in which numbers are compared as numbers, so that NaN differs from itself. -/
def agrees : Value → Value → Bool
  | number x, number y => x.sameNumber y
  | text s, text t => s == t
  | boolean b, boolean c => b == c
  | _, _ => false

end Value

/-- What a form holds for a parameter. -/
inductive Entry where
  | blank
  | filled (value : Value)
  /-- An array or an object, which no parameter takes. -/
  | unsupported
  deriving DecidableEq, Repr

/-- The form entry that a JSON value stands for. -/
def Entry.ofJson : Json → Entry
  | .null => blank
  | .boolean b => filled (.boolean b)
  | .number n => filled (.number n.toBinary64)
  | .string s => filled (.text s)
  | .array _ | .object _ => unsupported

end CommandBlocks
