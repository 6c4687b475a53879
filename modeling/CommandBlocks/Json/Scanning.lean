import CommandBlocks.Json.Fault

namespace CommandBlocks.Json

/-- Reads a part from the front of a text, and gives what is left of the text. The first fault ends
    the reading, so a value of the wrong type is reported before a fault of syntax behind it. -/
abbrev Reader (α : Type) := List Char → Except Fault (α × List Char)

/-- The text without the blanks at its front. Only these four characters are blanks in JSON. -/
def skipBlanks (cs : List Char) : List Char :=
  cs.dropWhile fun c => c = ' ' ∨ c = '\t' ∨ c = '\n' ∨ c = '\r'

/-- Reads the given characters. -/
def literal : List Char → List Char → Except Fault (List Char)
  | [], cs => .ok cs
  | _ :: _, [] => .error .endOfValue
  | c :: expected, c' :: cs => if c = c' then literal expected cs else .error .noLiteral

/-- The greatest natural number of 64 bits. -/
def maxWord : Nat := twoTo 64 - 1

/-- Appends digits to a number as long as it fits into 64 bits, and gives the digits left over. -/
def absorb (significand : Nat) : List Char → Nat × List Char
  | [] => (significand, [])
  | c :: digits =>
    let longer := significand * 10 + (c.toNat - '0'.toNat)
    if longer ≤ maxWord then absorb longer digits else (significand, c :: digits)

/-- Divides a number by a power of ten, in steps of `10 ^ 308`, each of them rounded. -/
def downscale (x : Binary64) (places : Nat) : Binary64 :=
  if places ≤ 308 then x.div (.ofNat (tenTo places))
  else if x.isZero then x
  else downscale (x.div (.ofNat (tenTo 308))) (places - 308)
termination_by places

/-- The floating-point number of a significand and an exponent of ten. -/
def ofParts (negative : Bool) (significand : Nat) (exponent : Int) : Except Fault Binary64 := do
  let x := Binary64.ofNat significand
  let scaled ←
    if exponent < 0 then pure (downscale x exponent.natAbs)
    else if x.isZero then pure x
    else if 308 < exponent then throw .numberOutOfRange
    else
      let product := x.mul (.ofNat (tenTo exponent.toNat))
      if product.isFinite then pure product else throw .numberOutOfRange
  return if negative then scaled.neg else scaled

/-- Reads a sign, if there is one, and gives whether it is a minus. -/
def readSign : List Char → Bool × List Char
  | '+' :: rest => (false, rest)
  | '-' :: rest => (true, rest)
  | rest => (false, rest)

/-- Reads the exponent behind a significand, if there is one, and gives the number. An exponent
    beyond 31 bits is not read: with it a significand other than zero is out of range or zero. -/
def readExponent (negative : Bool) (significand : Nat) (exponent : Int) : Reader Binary64 :=
  fun cs =>
    match cs with
    | c :: rest =>
      if c = 'e' ∨ c = 'E' then
        let (down, rest) := readSign rest
        let (digits, rest) := rest.span (·.isDigit)
        if digits.isEmpty then .error (if rest.isEmpty then .endOfValue else .invalidNumber)
        else
          let shift : Nat := Nat.ofDigitChars 10 digits 0
          if shift < twoTo 31 then do
            let shift : Int := if down then -shift else shift
            return (← ofParts negative significand (exponent + shift), rest)
          else if significand ≠ 0 ∧ !down then .error .numberOutOfRange
          else .ok (.zero negative, rest)
      else do return (← ofParts negative significand exponent, cs)
    | [] => do return (← ofParts negative significand exponent, [])

/-- Reads the fraction behind the first digits of a number, if there is one, and its exponent. -/
def readFraction (negative : Bool) (significand : Nat) (exponent : Int) : Reader Binary64 :=
  fun cs =>
    match cs with
    | '.' :: rest =>
      let (digits, rest) := rest.span (·.isDigit)
      if digits.isEmpty then .error (if rest.isEmpty then .endOfValue else .invalidNumber)
      else
        let (significand, ignored) := absorb significand digits
        readExponent negative significand (exponent - (digits.length - ignored.length : Nat)) rest
    | _ => readExponent negative significand exponent cs

private def isFractional : List Char → Bool
  | c :: _ => c = '.' ∨ c = 'e' ∨ c = 'E'
  | [] => false

/-- The number of a whole significand without fraction and exponent. A negative zero, and a negative
    integer beyond 64 bits, is a floating-point number. -/
def wholeNumber (negative : Bool) (significand : Nat) : Number :=
  if !negative then .integer significand
  else if significand = 0 ∨ twoTo 63 < significand then .binary (Binary64.ofNat significand).neg
  else .integer (-significand)

/-- Reads a minus, if there is one. -/
def readMinus : List Char → Bool × List Char
  | '-' :: rest => (true, rest)
  | rest => (false, rest)

/-- Reads a number. One with a fraction or an exponent, or an integer beyond 64 bits, becomes a
    floating-point number: its first digits, as many as fit into 64 bits, are multiplied or divided
    by a power of ten. -/
def readNumber : Reader Number := fun cs =>
  let (negative, cs) := readMinus cs
  let (digits, rest) := cs.span (·.isDigit)
  match digits with
  | [] => .error (if rest.isEmpty then .endOfValue else .invalidNumber)
  | '0' :: _ :: _ => .error .invalidNumber
  | _ =>
    let (significand, left) := absorb 0 digits
    if left.isEmpty ∧ !isFractional rest then .ok (wholeNumber negative significand, rest)
    else do
      let (x, rest) ← readFraction negative significand left.length rest
      return (.binary x, rest)

/-- Reads the four hexadecimal digits of an escape. A text with fewer than four bytes left ends too
    early, whatever these are. -/
def hexEscape : Reader Nat := fun cs =>
  let group := cs.take 4
  if (String.ofList group).utf8ByteSize < 4 then .error .endOfString
  else if group.length = 4 ∧ group.all (fun c =>
      c.isDigit ∨ ('a' ≤ c ∧ c ≤ 'f') ∨ ('A' ≤ c ∧ c ≤ 'F')) then
    let digit (c : Char) : Nat :=
      if c.isDigit then c.toNat - '0'.toNat else c.toLower.toNat - 'a'.toNat + 10
    .ok (group.foldl (fun n c => n * 16 + digit c) 0, cs.drop 4)
  else .error .invalidEscape

private def isFirstSurrogate (n : Nat) : Bool := 0xD800 ≤ n ∧ n < 0xDC00

private def isSecondSurrogate (n : Nat) : Bool := 0xDC00 ≤ n ∧ n < 0xE000

/-- Reads the character of an escape by number; one beyond U+FFFF takes two surrogates. -/
def unicodeEscape : Reader Char := fun cs => do
  let (first, cs) ← hexEscape cs
  if isSecondSurrogate first then throw .loneSurrogate
  if !isFirstSurrogate first then return (.ofNat first, cs)
  match cs with
  | [] | ['\\'] => throw .endOfString
  | '\\' :: 'u' :: cs => do
    let (second, cs) ← hexEscape cs
    if isSecondSurrogate second then
      return (.ofNat ((first - 0xD800) * 0x400 + (second - 0xDC00) + 0x10000), cs)
    else throw .loneSurrogate
  | _ => throw .unpairedSurrogate

/-- Reads the character behind a backslash, with a reader for those given by their number. -/
def escape (unicode : Reader Char) : Reader Char
  | [] => .error .endOfString
  | c :: cs =>
    match c with
    | '"' | '\\' | '/' => .ok (c, cs)
    | 'b' => .ok ('\x08', cs)
    | 'f' => .ok ('\x0c', cs)
    | 'n' => .ok ('\n', cs)
    | 'r' => .ok ('\r', cs)
    | 't' => .ok ('\t', cs)
    | 'u' => unicode cs
    | _ => .error .invalidEscape

/-- Reads the characters of a string up to its closing quote. The first argument bounds their
    number. -/
def stringChars (unicode : Reader Char) : Nat → Reader (List Char)
  | 0, _ => .error .endOfString
  | _ + 1, [] => .error .endOfString
  | bound + 1, c :: cs =>
    if c = '"' then .ok ([], cs)
    else if c = '\\' then do
      let (c, cs) ← escape unicode cs
      let (later, cs) ← stringChars unicode bound cs
      return (c :: later, cs)
    else if c.toNat < 0x20 then .error .controlCharacter
    else do
      let (later, cs) ← stringChars unicode bound cs
      return (c :: later, cs)

/-- Reads a string behind its opening quote. -/
def readString : Reader String := fun cs => do
  let (chars, cs) ← stringChars unicodeEscape cs.length cs
  return (.ofList chars, cs)

/-- Reads the start of a value: a whole scalar, or the opening bracket of an array or object. -/
def readStart : Reader Found := fun cs =>
  match skipBlanks cs with
  | [] => .error .endOfValue
  | c :: rest =>
    match c with
    | 'n' => do return (.null, ← literal ['u', 'l', 'l'] rest)
    | 't' => do return (.boolean true, ← literal ['r', 'u', 'e'] rest)
    | 'f' => do return (.boolean false, ← literal ['a', 'l', 's', 'e'] rest)
    | '"' => do
      let (s, rest) ← readString rest
      return (.string s, rest)
    | '[' => .ok (.sequence, rest)
    | '\x7b' => .ok (.map, rest)
    | _ =>
      if c = '-' ∨ c.isDigit then do
        let (n, rest) ← readNumber (c :: rest)
        return (.number n, rest)
      else .error .noValue

end CommandBlocks.Json
