import CommandBlocks.Proofs.Snapshot.Codec
import Mathlib.Tactic.SplitIfs

namespace CommandBlocks

namespace Bytes

/-- The ways to write a number: as a byte of its own, or behind a mark in two, four or eight
    bytes. -/
inductive NumberForm : UInt64 → List UInt8 → Prop
  | byte {b : UInt8} (hb : b < 251) : NumberForm b.toUInt64 [b]
  | marked {mark : UInt8} {low : List UInt8}
    (hmark : (mark, low.length) ∈ [(251, 2), (252, 4), (253, 8)]) :
    NumberForm (.ofNat (ofLittleEndian low)) (mark :: low)

/-- A number is below the power of 256 that its bytes have room for. -/
theorem ofLittleEndian_lt (low : List UInt8) : ofLittleEndian low < 256 ^ low.length := by
  induction low with
  | nil => exact Nat.one_pos
  | cons b low ih =>
    have hb : b.toNat < 256 := b.toNat_lt
    rw [ofLittleEndian, List.length_cons, Nat.pow_succ]
    omega

/-- Bytes are those of the number that they stand for. -/
theorem toLittleEndian_ofLittleEndian (low : List UInt8) :
    toLittleEndian low.length (ofLittleEndian low) = low := by
  induction low with
  | nil => rfl
  | cons b low ih =>
    have hb : b.toNat < 256 := b.toNat_lt
    have hfirst : UInt8.ofNat (b.toNat + 256 * ofLittleEndian low) = b := by
      apply UInt8.toNat_inj.1
      rw [UInt8.toNat_ofNat']
      omega
    have hrest : (b.toNat + 256 * ofLittleEndian low) / 256 = ofLittleEndian low := by omega
    rw [List.length_cons, toLittleEndian, ofLittleEndian, hfirst, hrest, ih]

/-- A number is written as it should be, or in more bytes than it needs. -/
theorem NumberForm.eq_or_longer {n : UInt64} {form : List UInt8} (hform : NumberForm n form) :
    form = writeNumber n ∨ (writeNumber n).length < form.length := by
  cases hform with
  | @byte b hb =>
    have hlt : b.toUInt64 < 251 := by
      rw [UInt64.lt_iff_toNat_lt, UInt8.toNat_toUInt64]
      exact UInt8.lt_iff_toNat_lt.1 hb
    left
    rw [writeNumber, if_pos hlt, UInt8.toUInt8_toUInt64]
  | @marked mark low hmark =>
    have hlt := ofLittleEndian_lt low
    have hback := toLittleEndian_ofLittleEndian low
    have hwidth : (mark = 251 ∧ low.length = 2) ∨ (mark = 252 ∧ low.length = 4) ∨
        (mark = 253 ∧ low.length = 8) := by
      simpa using hmark
    have hnumber : (UInt64.ofNat (ofLittleEndian low)).toNat = ofLittleEndian low := by
      have hwide : 256 ^ low.length ≤ 256 ^ 8 := Nat.pow_le_pow_right (by decide) (by omega)
      exact toNat_ofNat_of_lt (Nat.lt_of_lt_of_le hlt hwide)
    generalize UInt64.ofNat (ofLittleEndian low) = n at hnumber
    rw [← hnumber] at hlt hback
    unfold writeNumber
    -- the number is either written with this mark or fits into fewer bytes
    obtain ⟨rfl, hlength⟩ | ⟨rfl, hlength⟩ | ⟨rfl, hlength⟩ := hwidth
    · have htwo : n < 0x10000 := by
        rw [hlength] at hlt
        exact UInt64.lt_iff_toNat_lt.2 hlt
      rw [if_pos htwo]
      split_ifs
      · exact .inr (by simp [hlength])
      · exact .inl (by rw [← hlength, hback])
    · have hfour : n < 0x100000000 := by
        rw [hlength] at hlt
        exact UInt64.lt_iff_toNat_lt.2 hlt
      rw [if_pos hfour]
      split_ifs
      · exact .inr (by simp [hlength])
      · exact .inr (by simp [hlength])
      · exact .inl (by rw [← hlength, hback])
    · split_ifs
      · exact .inr (by simp [hlength])
      · exact .inr (by simp [hlength])
      · exact .inr (by simp [hlength])
      · exact .inl (by rw [← hlength, hback])

/-- A part of the bytes of a snapshot: a number, or bytes that can be written in one way only. -/
inductive Piece where
  | number (n : UInt64)
  | plain (bytes : List UInt8)

/-- The bytes that are written for a piece. -/
def Piece.write : Piece → List UInt8
  | number n => writeNumber n
  | plain bytes => bytes

/-- Bytes that are read as a piece. -/
def Piece.Form : Piece → List UInt8 → Prop
  | number n, form => NumberForm n form
  | plain bytes, form => form = bytes

/-- A form of a piece is what is written for it, unless the piece is a number in more bytes than it
    needs. -/
theorem Piece.Form.eq_or_longer {piece : Piece} {form : List UInt8} (hform : piece.Form form) :
    form = piece.write ∨ ∃ n, piece = .number n ∧ (writeNumber n).length < form.length := by
  cases piece with
  | number n =>
    have hnumber : NumberForm n form := hform
    exact hnumber.eq_or_longer.imp_right fun hlonger => ⟨n, rfl, hlonger⟩
  | plain bytes => exact .inl hform

/-- No form of a piece is shorter than what is written for it. -/
theorem Piece.Form.length_write_le {piece : Piece} {form : List UInt8} (hform : piece.Form form) :
    piece.write.length ≤ form.length := by
  obtain rfl | ⟨n, rfl, hlonger⟩ := hform.eq_or_longer
  · exact Nat.le_refl _
  · exact Nat.le_of_lt hlonger

/-- Bytes spell pieces one after the other. -/
inductive Spelled : List Piece → List UInt8 → Prop
  | nil : Spelled [] []
  | cons {piece : Piece} {pieces : List Piece} {form following : List UInt8}
    (hform : piece.Form form) (hfollowing : Spelled pieces following) :
    Spelled (piece :: pieces) (form ++ following)

/-- Bytes spell pieces one after the other, and some number takes more bytes than it needs. -/
inductive Overlong : List Piece → List UInt8 → Prop
  | here {n : UInt64} {pieces : List Piece} {form following : List UInt8}
    (hform : NumberForm n form) (hlonger : (writeNumber n).length < form.length)
    (hfollowing : Spelled pieces following) : Overlong (.number n :: pieces) (form ++ following)
  | later {piece : Piece} {pieces : List Piece} {form following : List UInt8}
    (hform : piece.Form form) (hfollowing : Overlong pieces following) :
    Overlong (piece :: pieces) (form ++ following)

namespace Spelled

variable {pieces others : List Piece} {bytes following : List UInt8}

theorem number {n : UInt64} (hform : NumberForm n bytes) : Spelled [.number n] bytes := by
  have hspelled : Spelled [.number n] (bytes ++ []) := .cons hform .nil
  rwa [List.append_nil] at hspelled

theorem plain (bytes : List UInt8) : Spelled [.plain bytes] bytes := by
  have hspelled : Spelled [.plain bytes] (bytes ++ []) := .cons rfl .nil
  rwa [List.append_nil] at hspelled

/-- Spellings one behind the other spell the pieces one behind the other. -/
theorem append (hpieces : Spelled pieces bytes) (hothers : Spelled others following) :
    Spelled (pieces ++ others) (bytes ++ following) := by
  induction hpieces with
  | nil => exact hothers
  | cons hform _ ih =>
    rw [List.append_assoc]
    exact .cons hform ih

/-- A spelling is what is written for the pieces, unless one of its numbers is overlong. -/
theorem eq_or_overlong (hpieces : Spelled pieces bytes) :
    bytes = pieces.flatMap Piece.write ∨ Overlong pieces bytes := by
  induction hpieces with
  | nil => exact .inl rfl
  | cons hform hfollowing ih =>
    obtain rfl | ⟨n, rfl, hlonger⟩ := hform.eq_or_longer
    · refine ih.imp (fun heq => ?_) (.later hform)
      rw [List.flatMap_cons, ← heq]
    · exact .inr (.here hform hlonger hfollowing)

/-- No spelling is shorter than what is written for the pieces. -/
theorem length_write_le (hpieces : Spelled pieces bytes) :
    (pieces.flatMap Piece.write).length ≤ bytes.length := by
  induction hpieces with
  | nil => exact Nat.le_refl _
  | cons hform _ ih =>
    have hpiece := hform.length_write_le
    rw [List.flatMap_cons, List.length_append, List.length_append]
    omega

end Spelled

/-- A spelling with an overlong number is longer than what is written for the pieces. -/
theorem Overlong.length_write_lt {pieces : List Piece} {bytes : List UInt8}
    (hpieces : Overlong pieces bytes) :
    (pieces.flatMap Piece.write).length < bytes.length := by
  induction hpieces with
  | here hform hlonger hfollowing =>
    have hrest := hfollowing.length_write_le
    rw [List.flatMap_cons, List.length_append, List.length_append, Piece.write]
    omega
  | later hform _ ih =>
    have hpiece := hform.length_write_le
    rw [List.flatMap_cons, List.length_append, List.length_append]
    omega

/-- The pieces of a length, and those of a choice among some. -/
def lengthPiece (n : Nat) : Piece := .number (.ofNat n)

def choicePiece {α : Type} [BEq α] (choices : List α) (a : α) : Piece :=
  lengthPiece (choices.idxOf a)

def textPieces (s : String) : List Piece :=
  [lengthPiece (Text.toUtf8 s).length, .plain (Text.toUtf8 s)]

def listPieces {α : Type} (pieces : α → List Piece) (l : List α) : List Piece :=
  lengthPiece l.length :: l.flatMap pieces

def idPiece {named : Named} (id : Id named) : Piece := .number id.number

/-- The pieces of a value. The bits of a number are no number of the format. -/
def valuePieces : Value → List Piece
  | .number x => [choicePiece ValueForm.all .number, .plain (toLittleEndian 8 x.bits.toNat)]
  | .text s => choicePiece ValueForm.all .text :: textPieces s
  | .boolean b => [choicePiece ValueForm.all .boolean, .plain [b.toUInt8]]

def entryPieces (entry : String × Value) : List Piece :=
  textPieces entry.1 ++ valuePieces entry.2

def blockPieces (r : BlockRecord) : List Piece :=
  [idPiece r.id, choicePiece Kind.all r.kind] ++ listPieces entryPieces r.values

def linkPieces (r : LinkRecord) : List Piece :=
  [idPiece r.id, idPiece r.link.source, choicePiece Handle.all r.link.handle,
    idPiece r.link.target]

section Written

variable {α : Type}

@[simp] theorem write_plain (bytes : List UInt8) : (Piece.plain bytes).write = bytes := rfl

@[simp] theorem write_lengthPiece (n : Nat) : (lengthPiece n).write = writeLength n := rfl

@[simp] theorem write_choicePiece [BEq α] (choices : List α) (a : α) :
    (choicePiece choices a).write = writeChoice choices a := rfl

@[simp] theorem write_idPiece {named : Named} (id : Id named) :
    (idPiece id).write = writeId id := rfl

@[simp] theorem write_textPieces (s : String) :
    (textPieces s).flatMap Piece.write = writeText s := by
  simp [textPieces, writeText]

@[simp] theorem write_listPieces (pieces : α → List Piece) (l : List α) :
    (listPieces pieces l).flatMap Piece.write =
      writeList (fun a => (pieces a).flatMap Piece.write) l := by
  simp [listPieces, writeList, List.flatMap_assoc]

@[simp] theorem write_valuePieces (v : Value) :
    (valuePieces v).flatMap Piece.write = writeValue v := by
  cases v <;> simp [valuePieces, writeValue]

@[simp] theorem write_entryPieces (entry : String × Value) :
    (entryPieces entry).flatMap Piece.write = writeEntry entry := by
  simp [entryPieces, writeEntry]

@[simp] theorem write_blockPieces (r : BlockRecord) :
    (blockPieces r).flatMap Piece.write = writeBlock r := by
  simp [blockPieces, writeBlock]

@[simp] theorem write_linkPieces (r : LinkRecord) :
    (linkPieces r).flatMap Piece.write = writeLink r := by
  simp [linkPieces, writeLink]

end Written

end Bytes

namespace Snapshot

open Bytes

/-- The parts of a snapshot's bytes. Its numbers are the lengths, the identifiers, the counters and
    the positions of choices. -/
def pieces (s : Snapshot) : List Piece :=
  listPieces blockPieces s.blocks ++ listPieces linkPieces s.links ++
    [idPiece s.nextBlock, idPiece s.nextLink]

/-- The pieces of a snapshot are written as the snapshot. -/
theorem write_pieces (s : Snapshot) : s.pieces.flatMap Piece.write = s.toBytes := by
  simp [pieces, toBytes]

end Snapshot

end CommandBlocks
