import CommandBlocks.Proofs.Snapshot.Codec

namespace CommandBlocks

/-- The length of a value's text, if it is one, is a number of 64 bits. -/
def Value.Writable : Value → Prop
  | .text s => s.utf8ByteSize < 2 ^ 64
  | _ => True

instance (v : Value) : Decidable v.Writable :=
  match v with
  | .text s => inferInstanceAs (Decidable (s.utf8ByteSize < 2 ^ 64))
  | .number _ | .boolean _ => .isTrue trivial

/-- The lengths in a block's record are numbers of 64 bits. -/
structure BlockRecord.Writable (r : BlockRecord) : Prop where
  values : r.values.length < 2 ^ 64
  entries : ∀ x ∈ r.values, x.1.utf8ByteSize < 2 ^ 64 ∧ x.2.Writable

instance (r : BlockRecord) : Decidable r.Writable :=
  decidable_of_iff (r.values.length < 2 ^ 64 ∧
      ∀ x ∈ r.values, x.1.utf8ByteSize < 2 ^ 64 ∧ x.2.Writable)
    ⟨fun h => ⟨h.1, h.2⟩, fun h => ⟨h.values, h.entries⟩⟩

/-- All lengths in a snapshot are numbers of 64 bits. -/
structure Snapshot.Writable (s : Snapshot) : Prop where
  blocks : s.blocks.length < 2 ^ 64
  links : s.links.length < 2 ^ 64
  records : ∀ r ∈ s.blocks, r.Writable

instance (s : Snapshot) : Decidable s.Writable :=
  decidable_of_iff (s.blocks.length < 2 ^ 64 ∧ s.links.length < 2 ^ 64 ∧
      ∀ r ∈ s.blocks, r.Writable)
    ⟨fun h => ⟨h.1, h.2.1, h.2.2⟩, fun h => ⟨h.blocks, h.links, h.records⟩⟩

theorem Kind.mem_all (kind : Kind) : kind ∈ Kind.all := by
  cases kind <;> decide

theorem Handle.mem_all (handle : Handle) : handle ∈ Handle.all := by
  cases handle <;> decide

namespace Bytes

/-- Reading a value is reading its form and then what the form says. -/
theorem readValue_eq : readValue =
    (readChoice ValueForm.all).andThen fun form bytes =>
      match form with
      | .number => ((take 8).andThen fun low =>
          .done (.number ⟨.ofNat (ofLittleEndian low)⟩) : Reader Value) bytes
      | .text => (readText.andThen fun s => .done (.text s)) bytes
      | .boolean => ((take 1).andThen fun byte bytes =>
          match byte with
          | [0] => .ok (.boolean false, bytes)
          | [1] => .ok (.boolean true, bytes)
          | _ => .error (.noTruthValue (byte.headD 0))) bytes := rfl

theorem ValueForm.mem_all (form : ValueForm) : form ∈ ValueForm.all := by
  cases form <;> decide

/-- The form of a value is read back. -/
private theorem readsBack_form (form : ValueForm) :
    ReadsBack (readChoice ValueForm.all) (writeChoice ValueForm.all form) form :=
  readsBack_choice form.mem_all (by decide)

/-- A value is read back, a number by all of its bits. -/
theorem readsBack_value {v : Value} (hv : v.Writable) : ReadsBack readValue (writeValue v) v := by
  rw [readValue_eq]
  cases v with
  | number x =>
    have hbits : x.bits.toNat < 256 ^ 8 := x.bits.toNat_lt
    have hread := readsBack_littleEndian (fun n => Value.number ⟨.ofNat n⟩) hbits
    rw [UInt64.ofNat_toNat] at hread
    exact (readsBack_form .number).andThen hread
  | text s => exact (readsBack_form .text).andThen ((readsBack_text hv).andThen_done rfl)
  | boolean b =>
    refine (readsBack_form .boolean).andThen ((readsBack_take [b.toUInt8]).andThen_done ?_)
    cases b <;> rfl

theorem readEntry_eq : readEntry =
    readText.andThen fun name => readValue.andThen fun value => .done (name, value) := rfl

theorem readsBack_entry {entry : String × Value} (hname : entry.1.utf8ByteSize < 2 ^ 64)
    (hvalue : entry.2.Writable) : ReadsBack readEntry (writeEntry entry) entry := by
  rw [readEntry_eq]
  exact (readsBack_text hname).andThen ((readsBack_value hvalue).andThen_done rfl)

theorem readBlock_eq : readBlock =
    readId.andThen fun id => (readChoice Kind.all).andThen fun kind =>
      (readList readEntry).andThen fun values => .done ⟨id, kind, values⟩ := rfl

/-- A record of a block is read back. -/
theorem readsBack_block {r : BlockRecord} (hr : r.Writable) :
    ReadsBack readBlock (writeBlock r) r := by
  have hvalues : ReadsBack (readList readEntry) (writeList writeEntry r.values) r.values :=
    readsBack_list hr.values fun x hx => readsBack_entry (hr.entries x hx).1 (hr.entries x hx).2
  have hkind : ReadsBack (readChoice Kind.all) (writeChoice Kind.all r.kind) r.kind :=
    readsBack_choice r.kind.mem_all (by decide)
  rw [readBlock_eq, writeBlock, List.append_assoc]
  exact (readsBack_id r.id).andThen (hkind.andThen (hvalues.andThen_done rfl))

theorem readLink_eq : readLink =
    readId.andThen fun id => readId.andThen fun source =>
      (readChoice Handle.all).andThen fun handle => readId.andThen fun target =>
        .done ⟨id, ⟨source, handle, target⟩⟩ := rfl

theorem readsBack_link (r : LinkRecord) : ReadsBack readLink (writeLink r) r := by
  have hhandle : ReadsBack (readChoice Handle.all) (writeChoice Handle.all r.link.handle)
      r.link.handle := readsBack_choice r.link.handle.mem_all (by decide)
  rw [readLink_eq, writeLink, List.append_assoc, List.append_assoc]
  exact (readsBack_id r.id).andThen ((readsBack_id r.link.source).andThen
    (hhandle.andThen ((readsBack_id r.link.target).andThen_done rfl)))

end Bytes

namespace Snapshot

open Bytes

theorem read_eq : read =
    (readList readBlock).andThen fun blocks => (readList readLink).andThen fun links =>
      readId.andThen fun nextBlock => readId.andThen fun nextLink =>
        .done ⟨blocks, links, nextBlock, nextLink⟩ := rfl

/-- A snapshot is read back from its bytes, whatever follows them, and from nothing less than all of
    them. -/
theorem readsBack {s : Snapshot} (hs : s.Writable) : ReadsBack read s.toBytes s := by
  have hblocks : ReadsBack (readList readBlock) (writeList writeBlock s.blocks) s.blocks :=
    readsBack_list hs.blocks fun r hr => readsBack_block (hs.records r hr)
  have hlinks : ReadsBack (readList readLink) (writeList writeLink s.links) s.links :=
    readsBack_list hs.links fun r _ => readsBack_link r
  rw [read_eq, toBytes, List.append_assoc, List.append_assoc]
  exact hblocks.andThen (hlinks.andThen
    ((readsBack_id s.nextBlock).andThen ((readsBack_id s.nextLink).andThen_done rfl)))

/-- Bytes behind those of a snapshot are passed over. -/
theorem ofBytes_append {s : Snapshot} (hs : s.Writable) (rest : List UInt8) :
    ofBytes (s.toBytes ++ rest) = .ok s := by
  rw [ofBytes, (readsBack hs).whole]
  rfl

/-- A snapshot is read from its bytes, whatever follows them. When its bytes are cut short anywhere,
    no snapshot at all is read: bytes are missing. -/
theorem ofBytes_toBytes_append {s : Snapshot} (hs : s.Writable) :
    (∀ rest, ofBytes (s.toBytes ++ rest) = .ok s) ∧
      ∀ part, part <+: s.toBytes → part ≠ s.toBytes →
        ∃ missing, ofBytes part = .error (.unexpectedEnd missing) := by
  refine ⟨ofBytes_append hs, fun part hpart hne => ?_⟩
  obtain ⟨missing, hmissing⟩ := (readsBack hs).cut part hpart hne
  refine ⟨missing, ?_⟩
  rw [ofBytes, hmissing]
  rfl

/-- A snapshot whose numbers are the first that take three and five bytes, with a repeated name and
    a number that is none. -/
def boundarySnapshot : Snapshot where
  blocks := [⟨⟨251⟩, .captureImage, [("camera", .text "süd"), ("camera", .boolean true),
    ("exposure", .number .nan)]⟩, ⟨⟨250⟩, .repeatTimes, []⟩]
  links := [⟨⟨65535⟩, ⟨⟨250⟩, .child, ⟨251⟩⟩⟩]
  nextBlock := ⟨65536⟩
  nextLink := ⟨4294967296⟩

theorem ofBytes_boundarySnapshot : boundarySnapshot.Writable ∧
    ofBytes (boundarySnapshot.toBytes ++ [7]) = .ok boundarySnapshot ∧
    ∃ missing, ofBytes boundarySnapshot.toBytes.dropLast = .error (.unexpectedEnd missing) := by
  have hs : boundarySnapshot.Writable := by decide
  obtain ⟨hwhole, hcut⟩ := ofBytes_toBytes_append hs
  refine ⟨hs, hwhole [7], hcut _ (List.dropLast_prefix _) ?_⟩
  decide

end Snapshot

end CommandBlocks
