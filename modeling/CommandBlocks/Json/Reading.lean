import CommandBlocks.Json.Scanning

namespace CommandBlocks.Json

/-- Whether another element follows in an array, of which the front is read up to the end of an
    element, or up to the opening bracket if `isFirst`. A comma is read, the bracket is not. -/
def moreElements (isFirst : Bool) (cs : List Char) : Except Fault (Bool × List Char) :=
  match skipBlanks cs with
  | [] => .error .endOfList
  | ']' :: rest => .ok (false, ']' :: rest)
  | c :: rest =>
    if isFirst then .ok (true, c :: rest)
    else if c = ',' then
      match skipBlanks rest with
      | [] => .error .endOfValue
      | ']' :: _ => .error .trailingComma
      | rest => .ok (true, rest)
    else .error .noListEnd

/-- Reads the closing bracket of an array from which no further element is taken. -/
def endElements (cs : List Char) : Except Fault (List Char) :=
  match skipBlanks cs with
  | [] => .error .endOfList
  | ']' :: rest => .ok rest
  | ',' :: rest =>
    match skipBlanks rest with
    | ']' :: _ => .error .trailingComma
    | _ => .error .trailingCharacters
  | _ => .error .trailingCharacters

/-- Reads the elements of an array and its closing bracket. The first argument bounds their
    number. -/
def elementsFrom {α : Type} (element : Reader α) : Nat → Bool → Reader (List α)
  | 0, _, _ => .error .endOfList
  | bound + 1, isFirst, cs => do
    let (more, cs) ← moreElements isFirst cs
    if more then
      let (a, cs) ← element cs
      let (later, cs) ← elementsFrom element bound false cs
      return (a :: later, cs)
    else return ([], ← endElements cs)

/-- Reads an array behind its opening bracket. -/
def elements {α : Type} (element : Reader α) : Reader (List α) := fun cs =>
  elementsFrom element (cs.length + 1) true cs

/-- Reads a key behind its opening quote. -/
def readKey : Reader (Option String) := fun cs => do
  let (s, cs) ← readString cs
  return (some s, cs)

/-- The next key of an object, of which the front is read up to the end of a member, or up to the
    opening brace if `isFirst`. No key means that the closing brace is read. -/
def nextKey (isFirst : Bool) : Reader (Option String) := fun cs =>
  match skipBlanks cs with
  | [] => .error .endOfObject
  | '\x7d' :: rest => .ok (none, rest)
  | c :: rest =>
    if isFirst then if c = '"' then readKey rest else .error .noKey
    else if c = ',' then
      match skipBlanks rest with
      | [] => .error .endOfValue
      | '"' :: rest => readKey rest
      | '\x7d' :: _ => .error .trailingComma
      | _ => .error .noKey
    else .error .noObjectEnd

/-- Reads the colon behind a key. -/
def colon (cs : List Char) : Except Fault (List Char) :=
  match skipBlanks cs with
  | [] => .error .endOfObject
  | ':' :: rest => .ok rest
  | _ => .error .noColon

/-- Reads the members of an object and its closing brace. Each member changes a state, and reads the
    colon and the value behind its key. The first argument bounds the number of members. -/
def membersFrom {σ : Type} (member : σ → String → Reader σ) : Nat → Bool → σ → Reader σ
  | 0, _, _, _ => .error .endOfObject
  | bound + 1, isFirst, s, cs => do
    match ← nextKey isFirst cs with
    | (none, cs) => return (s, cs)
    | (some key, cs) => do
      let (s, cs) ← member s key cs
      membersFrom member bound false s cs

/-- Reads an object behind its opening brace. -/
def members {σ : Type} (member : σ → String → Reader σ) (start : σ) : Reader σ := fun cs =>
  membersFrom member (cs.length + 1) true start cs

/-- Reads the members of an object whose values are all of one sort. Of members with one key the
    last is kept. -/
def tableOf {α : Type} (value : Reader α) : Reader (Table String α) :=
  members (fun table key cs => do
    let (a, cs) ← value (← colon cs)
    return (table.insert key a, cs)) ∅

/-- How many arrays and objects may be open at once. -/
def maxNesting : Nat := 127

/-- Reads a value behind its start, with a reader for the values nested in it, if any may be. -/
def valueBehind (nested? : Option (Reader Json)) : Found → Reader Json
  | .boolean b, cs => return (boolean b, cs)
  | .number n, cs => return (number n, cs)
  | .string s, cs => return (string s, cs)
  | .sequence, cs =>
    match nested? with
    | none => throw .tooDeep
    | some nested => do
      let (items, cs) ← elements nested cs
      return (array items, cs)
  | .map, cs =>
    match nested? with
    | none => throw .tooDeep
    | some nested => do
      let (table, cs) ← tableOf nested cs
      return (object table.entries, cs)
  | _, cs => return (null, cs)

/-- Reads any value in which at most so many arrays and objects are open at once. -/
def readValue : Nat → Reader Json
  | 0, cs => do
    let (found, cs) ← readStart cs
    valueBehind none found cs
  | nesting + 1, cs => do
    let (found, cs) ← readStart cs
    valueBehind (some (readValue nesting)) found cs

/-- Reads at least one digit of a value that is not used. -/
def skipDigits (cs : List Char) : Except Fault (List Char) :=
  match cs.span (·.isDigit) with
  | ([], _) => .error .invalidNumber
  | (_, rest) => .ok rest

/-- Reads the digits before the fraction. Only zero starts with a zero. -/
def skipWhole : List Char → Except Fault (List Char)
  | '0' :: c :: rest => if c.isDigit then .error .invalidNumber else .ok (c :: rest)
  | cs => skipDigits cs

/-- Reads the fraction, if there is one. -/
def skipFraction : List Char → Except Fault (List Char)
  | '.' :: rest => skipDigits rest
  | cs => .ok cs

/-- Reads the exponent, if there is one. -/
def skipExponent : List Char → Except Fault (List Char)
  | [] => .ok []
  | c :: rest =>
    if c = 'e' ∨ c = 'E' then
      match rest with
      | [] => .error .invalidNumber
      | sign :: rest => skipDigits (if sign = '+' ∨ sign = '-' then rest else sign :: rest)
    else .ok (c :: rest)

/-- Reads a number of a value that is not used. Its size does not matter. -/
def skipNumber (cs : List Char) : Except Fault (List Char) := do
  let cs ← skipWhole (readMinus cs).2
  let cs ← skipFraction cs
  skipExponent cs

/-- Reads an escape by number that is not used. -/
def unusedEscape : Reader Char := fun cs => do
  let (_, cs) ← hexEscape cs
  return ('u', cs)

/-- Reads a string of a value that is not used. Its surrogates need not be paired. -/
def skipString (cs : List Char) : Except Fault (List Char) := do
  return (← stringChars unusedEscape cs.length cs).2

/-- The brackets that are open around a value. -/
inductive Bracket where
  | list
  | object

/-- Where the reading of a value that is not used stands: before a value, behind an opening bracket,
    or behind a value inside brackets. -/
inductive SkipState where
  | value
  | opened
  | behind

/-- Reads the key of a member whose value is not used, and its colon. -/
def skipKey (cs : List Char) : Except Fault (List Char) := do
  match skipBlanks cs with
  | [] => throw .endOfObject
  | '"' :: rest => colon (← skipString rest)
  | _ => throw .noKey

/-- Where the reading goes on behind a value: nowhere if no bracket is open. -/
def behindValue (brackets : List Bracket) : Option (SkipState × List Bracket) :=
  if brackets.isEmpty then none else some (.behind, brackets)

/-- Reads the start of a value that is not used, which is all of a scalar. -/
def skipStart (brackets : List Bracket) : Reader (Option (SkipState × List Bracket)) := fun cs =>
  match skipBlanks cs with
  | [] => .error .endOfValue
  | c :: rest =>
    match c with
    | 'n' => do return (behindValue brackets, ← literal ['u', 'l', 'l'] rest)
    | 't' => do return (behindValue brackets, ← literal ['r', 'u', 'e'] rest)
    | 'f' => do return (behindValue brackets, ← literal ['a', 'l', 's', 'e'] rest)
    | '"' => do return (behindValue brackets, ← skipString rest)
    | '[' => .ok (some (.opened, .list :: brackets), rest)
    | '\x7b' => .ok (some (.opened, .object :: brackets), rest)
    | _ =>
      if c = '-' ∨ c.isDigit then do return (behindValue brackets, ← skipNumber (c :: rest))
      else .error .noValue

/-- Reads on in a value that is not used, up to the next value inside it or behind a bracket. -/
def skipStep : SkipState → List Bracket → Reader (Option (SkipState × List Bracket))
  | .value, brackets, cs => skipStart brackets cs
  | _, [], cs => .ok (none, cs)
  | state, .list :: brackets, cs =>
    match skipBlanks cs, state with
    | [], _ => .error .endOfList
    | ']' :: rest, _ => .ok (behindValue brackets, rest)
    | ',' :: rest, .behind => .ok (some (.value, .list :: brackets), rest)
    | _, .behind => .error .noListEnd
    | rest, _ => .ok (some (.value, .list :: brackets), rest)
  | state, .object :: brackets, cs =>
    match skipBlanks cs, state with
    | [], _ => .error .endOfObject
    | '\x7d' :: rest, _ => .ok (behindValue brackets, rest)
    | ',' :: rest, .behind => do return (some (.value, .object :: brackets), ← skipKey rest)
    | _, .behind => .error .noObjectEnd
    | rest, _ => do return (some (.value, .object :: brackets), ← skipKey rest)

/-- Reads a value that is not used to its end, whatever the number of its open brackets. The first
    argument bounds the number of steps. -/
def skipFrom : Nat → SkipState → List Bracket → List Char → Except Fault (List Char)
  | 0, _, _, _ => .error .endOfValue
  | bound + 1, state, brackets, cs => do
    match ← skipStep state brackets cs with
    | (none, cs) => return cs
    | (some (state, brackets), cs) => skipFrom bound state brackets cs

/-- Reads a value that is not used, only to find where it ends. -/
def skipValue (cs : List Char) : Except Fault (List Char) :=
  skipFrom (2 * cs.length + 2) .value [] cs

/-- Reads a whole text. -/
def readAll {α : Type} (read : Reader α) (text : String) : Except Fault α := do
  let (a, rest) ← read text.toList
  if (skipBlanks rest).isEmpty then return a else throw .trailingCharacters

/-- The value of a JSON text. -/
def ofText (text : String) : Except Fault Json := readAll (readValue maxNesting) text

end CommandBlocks.Json
