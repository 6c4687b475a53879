import CommandBlocks.Snapshot
import CommandBlocks.Text.Utf8

namespace CommandBlocks.Bytes

/-- The type that a number is read for. -/
inductive Width where
  | word32
  | word64
  | size
  | word128
  | reserved
  deriving DecidableEq, Repr

/-- The name of a type of numbers in messages. -/
def Width.name : Width → String
  | word32 => "U32"
  | word64 => "U64"
  | size => "Usize"
  | word128 => "U128"
  | reserved => "Reserved"

/-- Why bytes cannot be read. -/
inductive Fault where
  /-- So many bytes are missing for the part that is being read. -/
  | unexpectedEnd (missing : Nat)
  | wrongWidth (expected found : Width)
  /-- A choice at a position among so many. -/
  | noSuchChoice (position : UInt64) (choices : Nat)
  | noTruthValue (byte : UInt8)
  | noText (fault : Text.Utf8Fault)
  deriving DecidableEq, Repr

def Fault.message : Fault → String
  | unexpectedEnd missing => s!"UnexpectedEnd \x7b additional: {missing} \x7d"
  | wrongWidth expected found =>
    s!"InvalidIntegerType \x7b expected: {expected.name}, found: {found.name} \x7d"
  | noSuchChoice position choices =>
    "OtherString(\"invalid value: integer `" ++ toString position
      ++ "`, expected variant index 0 <= i < " ++ toString choices ++ "\")"
  | noTruthValue byte => s!"InvalidBooleanValue({byte})"
  | noText fault =>
    let badLength := match fault.badLength with
      | some n => s!"Some({n})"
      | none => "None"
    s!"Utf8 \x7b inner: Utf8Error \x7b valid_up_to: {fault.validUpTo}, error_len: {badLength} \x7d \x7d"

/-- Reads a part from the front of some bytes, and gives what is left of them. -/
abbrev Reader (α : Type) := List UInt8 → Except Fault (α × List UInt8)

/-- So many bytes from the front. -/
def take (count : Nat) : Reader (List UInt8) := fun bytes =>
  if bytes.length < count then .error (.unexpectedEnd (count - bytes.length))
  else .ok (bytes.splitAt count)

/-- The number whose bytes are given, the lowest first. -/
def ofLittleEndian : List UInt8 → Nat
  | [] => 0
  | b :: rest => b.toNat + 256 * ofLittleEndian rest

/-- The lowest bytes of a number, the lowest first. -/
def toLittleEndian : Nat → Nat → List UInt8
  | 0, _ => []
  | count + 1, n => .ofNat n :: toLittleEndian count (n / 256)

/-- A number in as few bytes as its size asks for: one byte below 251, else a mark and two, four or
    eight bytes, the lowest first. -/
def writeNumber (n : UInt64) : List UInt8 :=
  if n < 251 then [n.toUInt8]
  else if n < 0x10000 then 251 :: toLittleEndian 2 n.toNat
  else if n < 0x100000000 then 252 :: toLittleEndian 4 n.toNat
  else 253 :: toLittleEndian 8 n.toNat

/-- A number in so many bytes. -/
def readMarked (count : Nat) : Reader UInt64 := fun bytes => do
  let (low, bytes) ← take count bytes
  return (.ofNat (ofLittleEndian low), bytes)

/-- The type that a message says was expected, where a number with so many bytes behind its mark
    cannot be read. A number of 64 bits passes for one of 32 bits if its bytes could all be
    there. -/
def Width.reported (expected : Width) (following : Nat) : Width :=
  if expected = word64 ∧ 8 ≤ following then word32 else expected

/-- A number that may take eight bytes, or four where a number of 32 bits is expected. More bytes
    than a number needs are allowed. -/
def readNumber (expected : Width) : Reader UInt64
  | [] => .error (.unexpectedEnd 1)
  | mark :: bytes =>
    if mark < 251 then .ok (mark.toUInt64, bytes)
    else if mark = 251 then readMarked 2 bytes
    else if mark = 252 then readMarked 4 bytes
    else if mark = 253 then
      if expected = .word32 then .error (.wrongWidth expected .word64) else readMarked 8 bytes
    else
      .error (.wrongWidth (expected.reported bytes.length)
        (if mark = 254 then .word128 else .reserved))

def writeLength (n : Nat) : List UInt8 := writeNumber (.ofNat n)

/-- The position of a choice in a list of all. -/
def writeChoice {α : Type} [BEq α] (choices : List α) (a : α) : List UInt8 :=
  writeLength (choices.idxOf a)

def readChoice {α : Type} (choices : List α) : Reader α := fun bytes => do
  let (position, bytes) ← readNumber .word32 bytes
  match choices[position.toNat]? with
  | some a => return (a, bytes)
  | none => throw (.noSuchChoice position choices.length)

def writeText (s : String) : List UInt8 :=
  let bytes := Text.toUtf8 s
  writeLength bytes.length ++ bytes

def readText : Reader String := fun bytes => do
  let (length, bytes) ← readNumber .word64 bytes
  let (text, bytes) ← take length.toNat bytes
  match Text.ofUtf8 text with
  | .ok s => return (s, bytes)
  | .error fault => throw (.noText fault)

def writeList {α : Type} (write : α → List UInt8) (l : List α) : List UInt8 :=
  writeLength l.length ++ l.flatMap write

/-- So many parts, one after another. -/
def readMany {α : Type} (read : Reader α) : Nat → Reader (List α)
  | 0, bytes => .ok ([], bytes)
  | count + 1, bytes => do
    let (a, bytes) ← read bytes
    let (rest, bytes) ← readMany read count bytes
    return (a :: rest, bytes)

def readList {α : Type} (read : Reader α) : Reader (List α) := fun bytes => do
  let (length, bytes) ← readNumber .size bytes
  readMany read length.toNat bytes

def writeId {named : Named} (id : Id named) : List UInt8 := writeNumber id.number

def readId {named : Named} : Reader (Id named) := fun bytes => do
  let (number, bytes) ← readNumber .word64 bytes
  return (⟨number⟩, bytes)

/-- The forms of values, in the order of their positions. -/
inductive ValueForm where
  | number
  | text
  | boolean
  deriving DecidableEq

def ValueForm.all : List ValueForm := [number, text, boolean]

/-- The form of a value, and then its content: the eight bytes of a number, a text, or one byte. -/
def writeValue : Value → List UInt8
  | .number x => writeChoice ValueForm.all .number ++ toLittleEndian 8 x.bits.toNat
  | .text s => writeChoice ValueForm.all .text ++ writeText s
  | .boolean b => writeChoice ValueForm.all .boolean ++ [b.toUInt8]

def readValue : Reader Value := fun bytes => do
  let (form, bytes) ← readChoice ValueForm.all bytes
  match form with
  | .number => do
    let (low, bytes) ← take 8 bytes
    return (.number ⟨.ofNat (ofLittleEndian low)⟩, bytes)
  | .text => do
    let (s, bytes) ← readText bytes
    return (.text s, bytes)
  | .boolean => do
    let (byte, bytes) ← take 1 bytes
    match byte with
    | [0] => return (.boolean false, bytes)
    | [1] => return (.boolean true, bytes)
    | _ => throw (.noTruthValue (byte.headD 0))

def writeEntry (entry : String × Value) : List UInt8 := writeText entry.1 ++ writeValue entry.2

def readEntry : Reader (String × Value) := fun bytes => do
  let (name, bytes) ← readText bytes
  let (value, bytes) ← readValue bytes
  return ((name, value), bytes)

def writeBlock (r : BlockRecord) : List UInt8 :=
  writeId r.id ++ writeChoice Kind.all r.kind ++ writeList writeEntry r.values

def readBlock : Reader BlockRecord := fun bytes => do
  let (id, bytes) ← readId bytes
  let (kind, bytes) ← readChoice Kind.all bytes
  let (values, bytes) ← readList readEntry bytes
  return (⟨id, kind, values⟩, bytes)

def writeLink (r : LinkRecord) : List UInt8 :=
  writeId r.id ++ writeId r.link.source ++ writeChoice Handle.all r.link.handle
    ++ writeId r.link.target

def readLink : Reader LinkRecord := fun bytes => do
  let (id, bytes) ← readId bytes
  let (source, bytes) ← readId bytes
  let (handle, bytes) ← readChoice Handle.all bytes
  let (target, bytes) ← readId bytes
  return (⟨id, ⟨source, handle, target⟩⟩, bytes)

end CommandBlocks.Bytes

namespace CommandBlocks

namespace Snapshot

open Bytes

/-- A snapshot as bytes. -/
def toBytes (s : Snapshot) : List UInt8 :=
  writeList writeBlock s.blocks ++ writeList writeLink s.links
    ++ writeId s.nextBlock ++ writeId s.nextLink

/-- Reads a snapshot from the front of some bytes. -/
def read : Reader Snapshot := fun bytes => do
  let (blocks, bytes) ← readList readBlock bytes
  let (links, bytes) ← readList readLink bytes
  let (nextBlock, bytes) ← readId bytes
  let (nextLink, bytes) ← readId bytes
  return (⟨blocks, links, nextBlock, nextLink⟩, bytes)

/-- The snapshot with which some bytes start. What follows it is ignored. -/
def ofBytes (bytes : List UInt8) : Except Fault Snapshot := (·.1) <$> read bytes

end Snapshot

end CommandBlocks
