import CommandBlocks.Snapshot.Bytes
import Mathlib.Algebra.Group.Nat.Defs

namespace CommandBlocks.Bytes

variable {α β : Type}

namespace Reader

/-- Reads no bytes. -/
def done (a : α) : Reader α := fun bytes => .ok (a, bytes)

/-- Reads one part, and then another that may depend on it. -/
def andThen (first : Reader α) (next : α → Reader β) : Reader β := fun bytes =>
  first bytes >>= fun x => next x.1 x.2

end Reader

/-- A reader gives a part back from the bytes written for it, whatever follows them, and runs out of
    bytes wherever they are cut short. -/
structure ReadsBack (read : Reader α) (written : List UInt8) (a : α) : Prop where
  whole : ∀ rest, read (written ++ rest) = .ok (a, rest)
  cut : ∀ part, part <+: written → part ≠ written →
    ∃ missing, read part = .error (.unexpectedEnd missing)

namespace ReadsBack

variable {read : Reader α} {written following : List UInt8} {a : α} {b : β}

/-- A reader that takes no bytes reads back what it gives. -/
protected theorem done (a : α) : ReadsBack (.done a) [] a where
  whole _ := rfl
  cut _ hpart hne := absurd (List.prefix_nil.1 hpart) hne

/-- Parts written one after the other are read one after the other. -/
protected theorem andThen {next : α → Reader β} (hread : ReadsBack read written a)
    (hnext : ReadsBack (next a) following b) :
    ReadsBack (read.andThen next) (written ++ following) b where
  whole rest := by
    rw [List.append_assoc, Reader.andThen, hread.whole]
    exact hnext.whole rest
  cut part hpart hne := by
    by_cases hfirst : written <+: part
    · obtain ⟨later, rfl⟩ := hfirst
      have hlater : later ≠ following := by
        rintro rfl
        exact hne rfl
      rw [Reader.andThen, hread.whole]
      exact hnext.cut later ((List.prefix_append_right_inj written).1 hpart) hlater
    · have hshort : part <+: written := (List.prefix_or_prefix_of_prefix hpart
        (List.prefix_append written following)).resolve_right hfirst
      have hpartial : part ≠ written := by
        rintro rfl
        exact hfirst List.prefix_rfl
      obtain ⟨missing, hmissing⟩ := hread.cut part hshort hpartial
      refine ⟨missing, ?_⟩
      rw [Reader.andThen, hmissing]
      rfl

/-- What is done with the last part takes no further bytes. -/
theorem andThen_done {next : α → Reader β} (hread : ReadsBack read written a)
    (hdone : next a = .done b) : ReadsBack (read.andThen next) written b := by
  have hnext : ReadsBack (next a) [] b := by
    rw [hdone]
    exact .done b
  have hboth := hread.andThen hnext
  rwa [List.append_nil] at hboth

/-- A first byte may decide how the rest is read. -/
theorem cons {next : Reader α} {mark : UInt8} (hread : ReadsBack next written a)
    (hmark : ∀ bytes, read (mark :: bytes) = next bytes)
    (hempty : read [] = .error (.unexpectedEnd 1)) : ReadsBack read (mark :: written) a where
  whole rest := by rw [List.cons_append, hmark, hread.whole]
  cut part hpart hne := by
    obtain rfl | ⟨later, rfl, hlater⟩ := List.prefix_cons_iff.1 hpart
    · exact ⟨1, hempty⟩
    · have hpartial : later ≠ written := by
        rintro rfl
        exact hne rfl
      rw [hmark]
      exact hread.cut later hlater hpartial

end ReadsBack

/-- Bytes are read back as they are. -/
theorem readsBack_take (bytes : List UInt8) : ReadsBack (take bytes.length) bytes bytes where
  whole rest := by simp [take, List.splitAt_eq]
  cut part hpart hne := by
    have hlt : part.length < bytes.length :=
      Nat.lt_of_le_of_ne hpart.length_le fun heq => hne (hpart.eq_of_length heq)
    exact ⟨bytes.length - part.length, by rw [take, if_pos hlt]⟩

section Numbers

@[simp] theorem length_toLittleEndian (count n : Nat) :
    (toLittleEndian count n).length = count := by
  induction count generalizing n with
  | zero => rfl
  | succ count ih => rw [toLittleEndian, List.length_cons, ih]

/-- A number is put together again from its bytes, if there were enough of them. -/
theorem ofLittleEndian_toLittleEndian {count n : Nat} (hn : n < 256 ^ count) :
    ofLittleEndian (toLittleEndian count n) = n := by
  induction count generalizing n with
  | zero =>
    rw [Nat.pow_zero, Nat.lt_one_iff] at hn
    rw [hn]
    rfl
  | succ count ih =>
    have hrest : n / 256 < 256 ^ count := by
      rw [Nat.pow_succ] at hn
      omega
    rw [toLittleEndian, ofLittleEndian, ih hrest, UInt8.toNat_ofNat']
    omega

/-- So many bytes may be read for whatever a number stands for. -/
theorem readsBack_littleEndian {count n : Nat} (f : Nat → α) (hn : n < 256 ^ count) :
    ReadsBack ((take count).andThen fun low => .done (f (ofLittleEndian low)))
      (toLittleEndian count n) (f n) := by
  have htake := readsBack_take (toLittleEndian count n)
  rw [length_toLittleEndian] at htake
  apply htake.andThen_done
  rw [ofLittleEndian_toLittleEndian hn]

/-- The number behind a mark is read back, if it fits into the bytes that the mark announces. -/
theorem readsBack_marked {count : Nat} {n : UInt64} (hn : n.toNat < 256 ^ count) :
    ReadsBack (readMarked count) (toLittleEndian count n.toNat) n := by
  have hread := readsBack_littleEndian UInt64.ofNat hn
  rwa [UInt64.ofNat_toNat] at hread

/-- A number is read in whichever of the four forms it is written, but where a number of 32 bits is
    expected it has to be one. -/
theorem readsBack_number {expected : Width} {n : UInt64}
    (hn : expected = .word32 → n.toNat < 2 ^ 32) :
    ReadsBack (readNumber expected) (writeNumber n) n := by
  unfold writeNumber
  by_cases hone : n < 251
  · have hlt : n.toNat < 251 := UInt64.lt_iff_toNat_lt.1 hone
    have hbyte : n.toUInt8.toNat = n.toNat := by
      rw [UInt64.toNat_toUInt8]
      omega
    have hmark : n.toUInt8 < 251 := by
      rw [UInt8.lt_iff_toNat_lt, hbyte]
      exact hlt
    have hback : n.toUInt8.toUInt64 = n := by
      rw [← UInt64.toNat_inj, UInt8.toNat_toUInt64, hbyte]
    rw [if_pos hone]
    refine (ReadsBack.done n).cons (fun bytes => ?_) rfl
    rw [readNumber, if_pos hmark, hback]
    rfl
  · rw [if_neg hone]
    by_cases htwo : n < 0x10000
    · rw [if_pos htwo]
      exact (readsBack_marked (UInt64.lt_iff_toNat_lt.1 htwo)).cons (fun _ => rfl) rfl
    · rw [if_neg htwo]
      by_cases hfour : n < 0x100000000
      · rw [if_pos hfour]
        exact (readsBack_marked (UInt64.lt_iff_toNat_lt.1 hfour)).cons (fun _ => rfl) rfl
      · have hwide : expected ≠ .word32 := by
          intro heq
          exact hfour (UInt64.lt_iff_toNat_lt.2 (hn heq))
        rw [if_neg hfour]
        refine (readsBack_marked n.toNat_lt).cons (fun bytes => ?_) rfl
        simp [readNumber, hwide]

end Numbers

theorem toNat_ofNat_of_lt {n : Nat} (hn : n < 2 ^ 64) : (UInt64.ofNat n).toNat = n :=
  UInt64.toNat_ofNat_of_lt' hn

/-- A length is read back as a number of 64 bits. -/
theorem readsBack_length {expected : Width} (n : Nat) (hwide : expected ≠ .word32) :
    ReadsBack (readNumber expected) (writeLength n) (.ofNat n) :=
  readsBack_number fun heq => absurd heq hwide

theorem readId_eq {named : Named} : readId =
    (readNumber .word64).andThen fun number => .done (⟨number⟩ : Id named) := rfl

theorem readsBack_id {named : Named} (id : Id named) : ReadsBack readId (writeId id) id := by
  have hnumber : ReadsBack (readNumber .word64) (writeId id) id.number := readsBack_number nofun
  rw [readId_eq]
  exact hnumber.andThen_done rfl

theorem readChoice_eq (choices : List α) : readChoice choices =
    (readNumber .word32).andThen fun position bytes =>
      match choices[position.toNat]? with
      | some a => .ok (a, bytes)
      | none => .error (.noSuchChoice position choices.length) := rfl

/-- A choice is read back from its position. -/
theorem readsBack_choice [BEq α] [LawfulBEq α] {choices : List α} {a : α} (ha : a ∈ choices)
    (hfew : choices.length < 2 ^ 32) :
    ReadsBack (readChoice choices) (writeChoice choices a) a := by
  have hlt := List.idxOf_lt_length_of_mem ha
  have hposition := toNat_ofNat_of_lt (n := choices.idxOf a) (by omega)
  have hread : ReadsBack (readNumber .word32) (writeChoice choices a)
      (.ofNat (choices.idxOf a)) := by
    refine readsBack_number fun _ => ?_
    rw [hposition]
    omega
  rw [readChoice_eq]
  apply hread.andThen_done
  rw [hposition, List.getElem?_eq_getElem hlt, List.getElem_idxOf hlt]
  rfl

theorem readText_eq : readText =
    (readNumber .word64).andThen fun length => (take length.toNat).andThen fun text bytes =>
      match Text.ofUtf8 text with
      | .ok s => .ok (s, bytes)
      | .error fault => .error (.noText fault) := rfl

/-- A text is read back from its length and its bytes. -/
theorem readsBack_text {s : String} (hs : s.utf8ByteSize < 2 ^ 64) :
    ReadsBack readText (writeText s) s := by
  have hlength : (Text.toUtf8 s).length < 2 ^ 64 := hs
  have htake : ReadsBack (take (Text.toUtf8 s).length) (Text.toUtf8 s) (Text.toUtf8 s) :=
    readsBack_take _
  rw [readText_eq]
  refine (readsBack_length _ (by decide)).andThen ?_
  rw [toNat_ofNat_of_lt hlength]
  apply htake.andThen_done
  rw [Text.ofUtf8_toUtf8]
  rfl

theorem readMany_succ (read : Reader α) (count : Nat) : readMany read (count + 1) =
    read.andThen fun a => (readMany read count).andThen fun rest => .done (a :: rest) := rfl

theorem readList_eq (read : Reader α) : readList read =
    (readNumber .size).andThen fun length => readMany read length.toNat := rfl

/-- Parts that are written one behind the other are read back. -/
theorem readsBack_many {read : Reader α} {write : α → List UInt8} {l : List α}
    (hread : ∀ a ∈ l, ReadsBack read (write a) a) :
    ReadsBack (readMany read l.length) (l.flatMap write) l := by
  induction l with
  | nil => exact .done []
  | cons a l ih =>
    have hrest := ih fun other hother => hread other (List.mem_cons_of_mem _ hother)
    rw [List.length_cons, readMany_succ, List.flatMap_cons]
    exact (hread a List.mem_cons_self).andThen (hrest.andThen_done rfl)

/-- A list is read back, if each of its parts is. -/
theorem readsBack_list {read : Reader α} {write : α → List UInt8} {l : List α}
    (hlength : l.length < 2 ^ 64) (hread : ∀ a ∈ l, ReadsBack read (write a) a) :
    ReadsBack (readList read) (writeList write l) l := by
  rw [readList_eq]
  refine (readsBack_length _ (by decide)).andThen ?_
  rw [toNat_ofNat_of_lt hlength]
  exact readsBack_many hread

end CommandBlocks.Bytes
