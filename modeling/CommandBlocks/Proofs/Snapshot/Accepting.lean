import CommandBlocks.Proofs.Results
import CommandBlocks.Proofs.Snapshot.Bytes
import CommandBlocks.Proofs.Snapshot.Spelling

namespace CommandBlocks

namespace Bytes

variable {α β : Type}

/-- A reader takes bytes from the front of those that it is given, and whatever it reads is related
    to the bytes that it takes. -/
def Admits (read : Reader α) (p : α → List UInt8 → Prop) : Prop :=
  ∀ bytes a rest, read bytes = .ok (a, rest) → ∃ used, bytes = used ++ rest ∧ p a used

namespace Admits

variable {read : Reader α} {p q : α → List UInt8 → Prop}

/-- A reader admits what is described less closely, too. -/
theorem mono (hread : Admits read p) (himp : ∀ a used, p a used → q a used) : Admits read q := by
  intro bytes a rest hok
  obtain ⟨used, hused, hp⟩ := hread bytes a rest hok
  exact ⟨used, hused, himp a used hp⟩

protected theorem done (a : α) : Admits (.done a) fun found used => found = a ∧ used = [] := by
  intro bytes found rest hok
  cases hok
  exact ⟨[], rfl, rfl, rfl⟩

/-- Of parts read one after the other, the bytes stand one after the other. -/
protected theorem andThen {next : α → Reader β} {p : α → List UInt8 → Prop}
    {q : α → β → List UInt8 → Prop} (hread : Admits read p) (hnext : ∀ a, Admits (next a) (q a)) :
    Admits (read.andThen next) fun b used =>
      ∃ a first later, used = first ++ later ∧ p a first ∧ q a b later := by
  intro bytes b rest hok
  obtain ⟨⟨a, middle⟩, ha, hb⟩ := bind_eq_ok_iff.1 hok
  obtain ⟨first, rfl, hp⟩ := hread bytes a middle ha
  obtain ⟨later, rfl, hq⟩ := hnext a middle b rest hb
  exact ⟨first ++ later, (List.append_assoc ..).symm, a, first, later, rfl, hp, hq⟩

/-- What is done with the last part takes no further bytes. -/
theorem andThen_done {f : α → β} (hread : Admits read p) :
    Admits (read.andThen fun a => .done (f a)) fun b used => ∃ a, b = f a ∧ p a used := by
  refine (hread.andThen fun a => .done (f a)).mono ?_
  rintro b used ⟨a, first, later, rfl, hp, rfl, rfl⟩
  rw [List.append_nil]
  exact ⟨a, rfl, hp⟩

end Admits

/-- The bytes that are taken are as many as asked for. -/
theorem admits_take (count : Nat) :
    Admits (take count) fun low used => low = used ∧ low.length = count := by
  intro bytes low rest hok
  rw [take] at hok
  split at hok
  · cases hok
  · rw [List.splitAt_eq, Except.ok.injEq, Prod.mk.injEq] at hok
    obtain ⟨rfl, rfl⟩ := hok
    refine ⟨bytes.take count, (List.take_append_drop count bytes).symm, rfl, ?_⟩
    rw [List.length_take]
    omega

/-- Behind its mark, a number stands in as many bytes as the mark announces. -/
theorem admits_marked {mark : UInt8} {count : Nat}
    (hmark : (mark, count) ∈ [(251, 2), (252, 4), (253, 8)]) :
    Admits (readMarked count) fun n low => NumberForm n (mark :: low) := by
  have hread : readMarked count =
      (take count).andThen fun low => .done (.ofNat (ofLittleEndian low)) := rfl
  rw [hread]
  refine (admits_take count).andThen_done.mono ?_
  rintro n used ⟨low, rfl, rfl, rfl⟩
  exact .marked hmark

/-- A number is read from any of its forms, also from one that is longer than it needs to be. -/
theorem admits_number (expected : Width) : Admits (readNumber expected) NumberForm := by
  intro bytes n rest hok
  cases bytes with
  | nil => cases hok
  | cons mark bytes =>
    have hbehind : ∀ count, (mark, count) ∈ [(251, 2), (252, 4), (253, 8)] →
        readMarked count bytes = .ok (n, rest) →
          ∃ used, mark :: bytes = used ++ rest ∧ NumberForm n used := by
      intro count hmark hmarked
      obtain ⟨low, rfl, hform⟩ := admits_marked hmark bytes n rest hmarked
      exact ⟨mark :: low, rfl, hform⟩
    rw [readNumber] at hok
    split_ifs at hok with hone htwo hfour height hwide
    · cases hok
      exact ⟨[mark], rfl, .byte hone⟩
    · exact hbehind 2 (by simp [htwo]) hok
    · exact hbehind 4 (by simp [hfour]) hok
    · exact hbehind 8 (by simp [height]) hok

theorem admits_id {named : Named} :
    Admits (readId : Reader (Id named)) fun id used => Spelled [idPiece id] used := by
  rw [readId_eq]
  refine (admits_number _).andThen_done.mono ?_
  rintro id used ⟨number, rfl, hform⟩
  exact .number hform

/-- A choice is read from any form of its position. -/
theorem admits_choice [BEq α] [LawfulBEq α] {choices : List α} (hnodup : choices.Nodup) :
    Admits (readChoice choices) fun a used => Spelled [choicePiece choices a] used := by
  rw [readChoice_eq]
  refine ((admits_number _).andThen
    (q := fun position a used => choices[position.toNat]? = some a ∧ used = []) ?_).mono ?_
  · intro position bytes a rest hok
    cases hget : choices[position.toNat]? with
    | none => simp [hget] at hok
    | some found =>
      simp only [hget, Except.ok.injEq, Prod.mk.injEq] at hok
      obtain ⟨rfl, rfl⟩ := hok
      exact ⟨[], rfl, rfl, rfl⟩
  · rintro a used ⟨position, first, later, rfl, hform, hget, rfl⟩
    obtain ⟨hlt, rfl⟩ := List.getElem?_eq_some_iff.1 hget
    rw [List.append_nil, choicePiece, lengthPiece, hnodup.idxOf_getElem, UInt64.ofNat_toNat]
    exact .number hform

/-- A text is read from any form of its length, and from its own bytes. -/
theorem admits_text : Admits readText fun s used =>
    s.utf8ByteSize < 2 ^ 64 ∧ Spelled (textPieces s) used := by
  rw [readText_eq]
  refine ((admits_number _).andThen fun length => (admits_take length.toNat).andThen
    (q := fun text s used => Text.toUtf8 s = text ∧ used = []) ?_).mono ?_
  · intro text bytes s rest hok
    cases hof : Text.ofUtf8 text with
    | error fault => simp [hof] at hok
    | ok found =>
      simp only [hof, Except.ok.injEq, Prod.mk.injEq] at hok
      obtain ⟨rfl, rfl⟩ := hok
      exact ⟨[], rfl, Text.toUtf8_of_ofUtf8 hof, rfl⟩
  · rintro s used ⟨length, first, later, rfl, hform, text, body, last, rfl, ⟨rfl, hlength⟩, rfl,
      rfl⟩
    have hsize : s.utf8ByteSize = length.toNat := hlength
    refine ⟨hsize ▸ length.toNat_lt, ?_⟩
    rw [List.append_nil, textPieces, lengthPiece, hlength, UInt64.ofNat_toNat]
    exact .cons hform (.plain _)

/-- As many parts as asked for are read from their spellings one behind the other. -/
theorem admits_many {read : Reader α} {valid : α → Prop} {pieces : α → List Piece}
    (hread : Admits read fun a used => valid a ∧ Spelled (pieces a) used) (count : Nat) :
    Admits (readMany read count) fun l used =>
      l.length = count ∧ (∀ a ∈ l, valid a) ∧ Spelled (l.flatMap pieces) used := by
  induction count with
  | zero =>
    refine (Admits.done []).mono ?_
    rintro l used ⟨rfl, rfl⟩
    exact ⟨rfl, nofun, .nil⟩
  | succ count ih =>
    rw [readMany_succ]
    refine (hread.andThen fun a => ih.andThen_done).mono ?_
    rintro l used ⟨a, first, later, rfl, ⟨ha, hfirst⟩, rest, rfl, hlength, hrest, hlater⟩
    exact ⟨by rw [List.length_cons, hlength], List.forall_mem_cons.2 ⟨ha, hrest⟩,
      hfirst.append hlater⟩

/-- A list is read from any form of its length, and from spellings of its parts. -/
theorem admits_list {read : Reader α} {valid : α → Prop} {pieces : α → List Piece}
    (hread : Admits read fun a used => valid a ∧ Spelled (pieces a) used) :
    Admits (readList read) fun l used =>
      l.length < 2 ^ 64 ∧ (∀ a ∈ l, valid a) ∧ Spelled (listPieces pieces l) used := by
  rw [readList_eq]
  refine ((admits_number _).andThen fun length => admits_many hread length.toNat).mono ?_
  rintro l used ⟨length, first, later, rfl, hform, hlength, hvalid, hlater⟩
  rw [listPieces, lengthPiece, hlength, UInt64.ofNat_toNat]
  exact ⟨length.toNat_lt, hvalid, .cons hform hlater⟩

/-- What is read of a value behind the position of its form. -/
theorem admits_content {form : ValueForm} :
    Admits (fun bytes =>
      match form with
      | .number => ((take 8).andThen fun low =>
          .done (.number ⟨.ofNat (ofLittleEndian low)⟩) : Reader Value) bytes
      | .text => (readText.andThen fun s => .done (.text s)) bytes
      | .boolean => ((take 1).andThen fun byte bytes =>
          match byte with
          | [0] => .ok (.boolean false, bytes)
          | [1] => .ok (.boolean true, bytes)
          | _ => .error (.noTruthValue (byte.headD 0))) bytes) fun v used =>
      v.Writable ∧ ∃ content, valuePieces v = choicePiece ValueForm.all form :: content ∧
        Spelled content used := by
  cases form with
  | number =>
    refine (admits_take 8).andThen_done.mono ?_
    rintro v used ⟨low, rfl, rfl, hlength⟩
    have hlt : ofLittleEndian low < 256 ^ 8 := by
      rw [← hlength]
      exact ofLittleEndian_lt low
    refine ⟨trivial, _, rfl, ?_⟩
    rw [toNat_ofNat_of_lt hlt, ← hlength, toLittleEndian_ofLittleEndian]
    exact .plain low
  | text =>
    refine admits_text.andThen_done.mono ?_
    rintro v used ⟨s, rfl, hsize, hspelled⟩
    exact ⟨hsize, _, rfl, hspelled⟩
  | boolean =>
    have htruth : ∀ byte : List UInt8, Admits (fun bytes =>
        match byte with
        | [0] => (.ok (.boolean false, bytes) : Except Fault (Value × List UInt8))
        | [1] => .ok (.boolean true, bytes)
        | _ => .error (.noTruthValue (byte.headD 0))) fun v used =>
          ∃ b : Bool, v = .boolean b ∧ byte = [b.toUInt8] ∧ used = [] := by
      intro byte bytes v rest hok
      split at hok
      · cases hok
        exact ⟨[], rfl, false, rfl, rfl, rfl⟩
      · cases hok
        exact ⟨[], rfl, true, rfl, rfl, rfl⟩
      · cases hok
    refine ((admits_take 1).andThen htruth).mono ?_
    rintro v used ⟨byte, first, later, rfl, ⟨rfl, -⟩, b, rfl, rfl, rfl⟩
    rw [List.append_nil]
    exact ⟨trivial, _, rfl, .plain _⟩

/-- A value is read from its spellings only. -/
theorem admits_value :
    Admits readValue fun v used => v.Writable ∧ Spelled (valuePieces v) used := by
  have hform : Admits (readChoice ValueForm.all) fun form used =>
      Spelled [choicePiece ValueForm.all form] used := admits_choice (by decide)
  rw [readValue_eq]
  refine (hform.andThen fun form => admits_content).mono ?_
  rintro v used ⟨form, first, later, rfl, hfirst, hv, content, hpieces, hlater⟩
  rw [hpieces]
  exact ⟨hv, hfirst.append hlater⟩

theorem admits_entry : Admits readEntry fun entry used =>
    (entry.1.utf8ByteSize < 2 ^ 64 ∧ entry.2.Writable) ∧ Spelled (entryPieces entry) used := by
  rw [readEntry_eq]
  refine (admits_text.andThen fun name => admits_value.andThen_done).mono ?_
  rintro entry used ⟨name, first, second, rfl, ⟨hname, hfirst⟩, value, rfl, hvalue, hsecond⟩
  exact ⟨⟨hname, hvalue⟩, hfirst.append hsecond⟩

/-- A record of a block is read from its spellings only. -/
theorem admits_block :
    Admits readBlock fun r used => r.Writable ∧ Spelled (blockPieces r) used := by
  have hkind : Admits (readChoice Kind.all) fun kind used =>
      Spelled [choicePiece Kind.all kind] used := admits_choice (by decide)
  rw [readBlock_eq]
  refine (admits_id.andThen fun id => hkind.andThen fun kind =>
    (admits_list admits_entry).andThen_done).mono ?_
  rintro r used ⟨id, first, later, rfl, hfirst, kind, second, third, rfl, hsecond, values, rfl,
    hlength, hvalues, hthird⟩
  exact ⟨⟨hlength, hvalues⟩, hfirst.append (hsecond.append hthird)⟩

theorem admits_link : Admits readLink fun r used => Spelled (linkPieces r) used := by
  have hhandle : Admits (readChoice Handle.all) fun handle used =>
      Spelled [choicePiece Handle.all handle] used := admits_choice (by decide)
  rw [readLink_eq]
  refine (admits_id.andThen fun id => admits_id.andThen fun source =>
    hhandle.andThen fun handle => admits_id.andThen_done).mono ?_
  rintro r used ⟨id, first, later, rfl, hfirst, source, second, later, rfl, hsecond, handle, third,
    fourth, rfl, hthird, target, rfl, hfourth⟩
  exact hfirst.append (hsecond.append (hthird.append hfourth))

end Bytes

namespace Snapshot

open Bytes

/-- A snapshot is read from its spellings only, and what is read can be written. -/
theorem admits_read : Admits read fun s used => s.Writable ∧ Spelled s.pieces used := by
  have hlinks : Admits readLink fun r used => True ∧ Spelled (linkPieces r) used :=
    admits_link.mono fun r used hspelled => ⟨trivial, hspelled⟩
  rw [read_eq]
  refine ((admits_list admits_block).andThen fun blocks => (admits_list hlinks).andThen fun links =>
    admits_id.andThen fun nextBlock => admits_id.andThen_done).mono ?_
  rintro s used ⟨blocks, first, later, rfl, ⟨hblocks, hrecords, hfirst⟩, links, second, later, rfl,
    ⟨hlinks, -, hsecond⟩, nextBlock, third, fourth, rfl, hthird, nextLink, rfl, hfourth⟩
  rw [← List.append_assoc]
  exact ⟨⟨hblocks, hlinks, hrecords⟩, (hfirst.append hsecond).append (hthird.append hfourth)⟩

/-- A snapshot that is read from some bytes is written in at most as many bytes as were used for it,
    and read back from them. The bytes used are those that are written exactly if they are as
    many. They can only differ from them by some number that takes more bytes than it needs. -/
theorem toBytes_of_ofBytes {bytes : List UInt8} {s : Snapshot} (hok : ofBytes bytes = .ok s) :
    ∃ used rest, bytes = used ++ rest ∧ read bytes = .ok (s, rest) ∧
      s.toBytes.length ≤ used.length ∧ ofBytes s.toBytes = .ok s ∧
      (s.toBytes = used ↔ s.toBytes.length = used.length) ∧
      (s.toBytes ≠ used ↔ Overlong s.pieces used) := by
  obtain ⟨⟨found, rest⟩, hread, rfl⟩ := map_eq_ok_iff.1 hok
  obtain ⟨used, rfl, hwritable, hspelled⟩ := admits_read bytes _ _ hread
  have hle := hspelled.length_write_le
  have hcases := hspelled.eq_or_overlong
  rw [write_pieces] at hle hcases
  have hback := ofBytes_append hwritable []
  rw [List.append_nil] at hback
  have hlonger : Overlong found.pieces used → found.toBytes.length < used.length := by
    intro hoverlong
    rw [← write_pieces]
    exact hoverlong.length_write_lt
  refine ⟨used, rest, rfl, hread, hle, hback, ⟨congrArg _, fun hlength => ?_⟩,
    ⟨fun hne => ?_, fun hoverlong heq => ?_⟩⟩
  · obtain heq | hoverlong := hcases
    · exact heq.symm
    · exact absurd hlength (Nat.ne_of_lt (hlonger hoverlong))
  · exact hcases.resolve_left (Ne.symm hne)
  · exact Nat.ne_of_lt (hlonger hoverlong) (congrArg _ heq)

/-- One block, with its count in five bytes and its kind in three, and a byte that is ignored. -/
def paddedBytes : List UInt8 := [252, 1, 0, 0, 0, 5, 251, 0, 0, 0, 0, 6, 0, 7]

def paddedSnapshot : Snapshot where
  blocks := [⟨⟨5⟩, .ifThen, []⟩]
  links := []
  nextBlock := ⟨6⟩
  nextLink := ⟨0⟩

theorem toBytes_of_paddedBytes : ofBytes paddedBytes = .ok paddedSnapshot ∧
    ofBytes paddedSnapshot.toBytes = .ok paddedSnapshot ∧
    Overlong paddedSnapshot.pieces paddedBytes.dropLast := by
  have hok : ofBytes paddedBytes = .ok paddedSnapshot := by rfl
  obtain ⟨used, rest, hbytes, hread, -, hback, -, hoverlong⟩ := toBytes_of_ofBytes hok
  have hread' : read paddedBytes = .ok (paddedSnapshot, [7]) := by rfl
  obtain rfl : rest = [7] := by
    rw [hread', Except.ok.injEq, Prod.mk.injEq] at hread
    exact hread.2.symm
  have hused : paddedBytes.dropLast = used := by
    rw [hbytes, List.dropLast_concat]
  refine ⟨hok, hback, hused ▸ hoverlong.1 ?_⟩
  rw [← hused]
  decide

end Snapshot

end CommandBlocks
