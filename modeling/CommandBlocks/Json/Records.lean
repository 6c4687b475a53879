import CommandBlocks.Json.Reading

namespace CommandBlocks.Json

/-- Reads a text. -/
def readText : Reader String := fun cs => do
  match ← readStart cs with
  | (.string s, cs) => return (s, cs)
  | (found, _) => throw (.wrongType found "a string")

/-- Reads a truth value. -/
def readBoolean : Reader Bool := fun cs => do
  match ← readStart cs with
  | (.boolean b, cs) => return (b, cs)
  | (found, _) => throw (.wrongType found "a boolean")

/-- Reads a natural number of 64 bits. -/
def readWord : Reader UInt64 := fun cs => do
  match ← readStart cs with
  | (.number (.integer n), cs) =>
    if n < 0 then throw (.wrongValue (.number (.integer n)) "u64") else return (.ofNat n.toNat, cs)
  | (found, _) => throw (.wrongType found "u64")

/-- Reads a floating-point number. -/
def readBinary64 : Reader Binary64 := fun cs => do
  match ← readStart cs with
  | (.number n, cs) => return (n.toBinary64, cs)
  | (found, _) => throw (.wrongType found "f64")

/-- Reads an array. -/
def readList {α : Type} (element : Reader α) : Reader (List α) := fun cs => do
  match ← readStart cs with
  | (.sequence, cs) => elements element cs
  | (found, _) => throw (.wrongType found "a sequence")

/-- Reads an object as a table. -/
def readTable {α : Type} (value : Reader α) : Reader (Table String α) := fun cs => do
  match ← readStart cs with
  | (.map, cs) => tableOf value cs
  | (found, _) => throw (.wrongType found "a map")

/-- Reads an array of two elements. -/
def readPair {α β : Type} (first : Reader α) (second : Reader β) : Reader (α × β) := fun cs => do
  let expected := "a tuple of size 2"
  match ← readStart cs with
  | (.sequence, cs) => do
    let (more, cs) ← moreElements true cs
    if !more then throw (.tooShort 0 expected)
    let (a, cs) ← first cs
    let (more, cs) ← moreElements false cs
    if !more then throw (.tooShort 1 expected)
    let (b, cs) ← second cs
    return ((a, b), ← endElements cs)
  | (found, _) => throw (.wrongType found expected)

/-- A field of a record whose fields are collected in a draft. -/
structure RecordField (σ : Type) where
  /-- The name of the field in messages, and the first of the keys that name it. -/
  name : String
  aliases : List String
  isRequired : Bool
  isSet : σ → Bool
  /-- Reads the field's value into a draft. -/
  read : σ → Reader σ

/-- A field that a record may lack. -/
def RecordField.optional {σ α : Type} (name : String) (aliases : List String) (get : σ → Option α)
    (set : σ → α → σ) (read : Reader α) : RecordField σ where
  name
  aliases
  isRequired := false
  isSet s := (get s).isSome
  read s cs := do
    let (a, cs) ← read cs
    return (set s a, cs)

/-- A field that a record must have. -/
def RecordField.required {σ α : Type} (name : String) (aliases : List String) (get : σ → Option α)
    (set : σ → α → σ) (read : Reader α) : RecordField σ :=
  { RecordField.optional name aliases get set read with isRequired := true }

/-- Reads the member of a record, behind its key. -/
def recordMember {σ : Type} (fields : List (RecordField σ)) (draft : σ) (key : String) : Reader σ :=
  fun cs => do
    match fields.find? fun field => field.name == key || field.aliases.contains key with
    | none => return (draft, ← skipValue (← colon cs))
    | some field =>
      if field.isSet draft then throw (.repeatedField field.name)
      field.read draft (← colon cs)

/-- Reads the fields of a record that is written as an array, from the field at a position on.
    Fields that the record may lack may be missing at the end. -/
def recordElements {σ : Type} (expected : String) : Nat → List (RecordField σ) → σ → Reader σ
  | _, [], draft, cs => do return (draft, ← endElements cs)
  | position, field :: later, draft, cs => do
    let (more, cs) ← moreElements (position == 0) cs
    if more then
      let (draft, cs) ← field.read draft cs
      recordElements expected (position + 1) later draft cs
    else if field.isRequired then throw (.tooShort position expected)
    else recordElements expected (position + 1) later draft cs

/-- Reads a record of a name in messages: an object with named fields, whose other keys are passed
    over, or an array of the fields in order. -/
def readRecord {σ : Type} (name : String) (fields : List (RecordField σ)) (draft : σ) : Reader σ :=
  fun cs => do
    match ← readStart cs with
    | (.map, cs) => do
      let (draft, cs) ← members (recordMember fields) draft cs
      match fields.find? fun field => field.isRequired && !field.isSet draft with
      | some field => throw (.missingField field.name)
      | none => return (draft, cs)
    | (.sequence, cs) =>
      let count := if fields.length = 1 then "1 element" else s!"{fields.length} elements"
      recordElements s!"struct {name} with {count}" 0 fields draft cs
    | (found, _) => throw (.wrongType found s!"struct {name}")

/-- A variant of a choice: a mere name, or a name with a content. -/
inductive Variant (α : Type) where
  | bare (a : α)
  | holding (read : Reader α)

/-- The variant of a name among those known. -/
def findVariant {α : Type} (variants : List (String × Variant α)) (name : String) :
    Except Fault (Variant α) :=
  match variants.find? (·.1 == name) with
  | some (_, variant) => .ok variant
  | none => .error (.unknownVariant name (variants.map (·.1)))

/-- Reads the content of a variant, which for a mere name is `null`. -/
def readContent {α : Type} : Variant α → Reader α
  | .holding read, cs => read cs
  | .bare a, cs => do
    match ← readStart cs with
    | (.null, cs) => return (a, cs)
    | (found, _) => throw (.wrongType found "unit")

/-- Reads a choice: the name of a variant, or an object with the name as its only key and the
    content as its value. -/
def readChoice {α : Type} (variants : List (String × Variant α)) : Reader α := fun cs => do
  match skipBlanks cs with
  | [] => throw .endOfValue
  | '"' :: rest => do
    let (name, rest) ← readString rest
    match ← findVariant variants name with
    | .bare a => return (a, rest)
    | .holding _ => throw (.wrongType .unitVariant "newtype variant")
  | '\x7b' :: rest => do
    match ← nextKey true rest with
    | (none, _) => throw .noValue
    | (some name, rest) => do
      let variant ← findVariant variants name
      let (a, rest) ← readContent variant (← colon rest)
      match skipBlanks rest with
      | [] => throw .endOfObject
      | '\x7d' :: rest => return (a, rest)
      | _ => throw .noValue
  | _ => throw .noValue

end CommandBlocks.Json
