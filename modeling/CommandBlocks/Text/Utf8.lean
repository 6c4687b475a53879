namespace CommandBlocks.Text

/-- Why bytes are no text: `validUpTo` bytes are good, and then `badLength` bytes start no
    character. Without `badLength` the bytes end inside a character. -/
structure Utf8Fault where
  validUpTo : Nat
  badLength : Option Nat
  deriving DecidableEq, Repr

/-- The shape of a character with a given first byte: how many bytes follow it, and the range of the
    first of these. Every later byte is in the range from `0x80` to `0xBF`. -/
structure CharShape where
  following : Nat
  low : Nat
  high : Nat

/-- The shape that a first byte announces. -/
def CharShape.ofByte? (b : Nat) : Option CharShape :=
  if b < 0x80 then some ⟨0, 0x80, 0xBF⟩
  else if b < 0xC2 then none
  else if b < 0xE0 then some ⟨1, 0x80, 0xBF⟩
  else if b = 0xE0 then some ⟨2, 0xA0, 0xBF⟩
  else if b = 0xED then some ⟨2, 0x80, 0x9F⟩
  else if b < 0xF0 then some ⟨2, 0x80, 0xBF⟩
  else if b = 0xF0 then some ⟨3, 0x90, 0xBF⟩
  else if b < 0xF4 then some ⟨3, 0x80, 0xBF⟩
  else if b = 0xF4 then some ⟨3, 0x80, 0x8F⟩
  else none

/-- What stands behind the first byte of a character. -/
inductive Continuation where
  | complete (rest : List UInt8)
  /-- The bytes end too early. -/
  | cutShort
  /-- A byte out of range follows `read` good bytes. -/
  | broken (read : Nat)

/-- Reads `more` bytes of a character of which `read` bytes are read, the next one in a range. -/
def continuation (read low high : Nat) : Nat → List UInt8 → Continuation
  | 0, rest => .complete rest
  | _ + 1, [] => .cutShort
  | more + 1, b :: rest =>
    if low ≤ b.toNat ∧ b.toNat ≤ high then continuation (read + 1) 0x80 0xBF more rest
    else .broken read

/-- Where bytes stop being a text, after `good` bytes that are one. The first argument bounds the
    number of characters. -/
def faultFrom : Nat → Nat → List UInt8 → Utf8Fault
  | 0, good, _ => ⟨good, none⟩
  | _ + 1, good, [] => ⟨good, none⟩
  | bound + 1, good, b :: rest =>
    match CharShape.ofByte? b.toNat with
    | none => ⟨good, some 1⟩
    | some shape =>
      match continuation 1 shape.low shape.high shape.following rest with
      | .complete rest => faultFrom bound (good + 1 + shape.following) rest
      | .cutShort => ⟨good, none⟩
      | .broken read => ⟨good, some read⟩

/-- The bytes of a text in UTF-8. -/
def toUtf8 (s : String) : List UInt8 := s.toUTF8.data.toList

/-- The text of bytes in UTF-8. -/
def ofUtf8 (bytes : List UInt8) : Except Utf8Fault String :=
  match String.fromUTF8? ⟨bytes.toArray⟩ with
  | some s => .ok s
  | none => .error (faultFrom bytes.length 0 bytes)

/-- Reading the bytes of a text gives the text. -/
theorem ofUtf8_toUtf8 (s : String) : ofUtf8 (toUtf8 s) = .ok s := by
  have h : String.fromUTF8? ⟨(toUtf8 s).toArray⟩ = some s := by
    simp [toUtf8, String.fromUTF8?, s.isValidUTF8]
    rfl
  rw [ofUtf8, h]

/-- The bytes from which a text was read are the bytes of the text. -/
theorem toUtf8_of_ofUtf8 {bytes : List UInt8} {s : String} (h : ofUtf8 bytes = .ok s) :
    toUtf8 s = bytes := by
  rw [ofUtf8] at h
  split at h
  next t ht =>
    cases h
    unfold String.fromUTF8? at ht
    split at ht
    next hvalid =>
      cases ht
      show (⟨bytes.toArray⟩ : ByteArray).data.toList = bytes
      simp
    next => contradiction
  next => contradiction

end CommandBlocks.Text
