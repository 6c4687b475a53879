import CommandBlocks.Proofs.Editing.Origins
import CommandBlocks.Proofs.Snapshot.Bytes

namespace CommandBlocks

theorem Parameter.mem_all (parameter : Parameter) : parameter ∈ all := by
  cases parameter <;> decide

/-- The names of parameters are short enough to be written. -/
theorem Parameter.utf8ByteSize_name_lt (parameter : Parameter) :
    parameter.name.utf8ByteSize < 2 ^ 64 := by
  cases parameter <;> decide

/-- A block has no more values than there are parameters. -/
theorem size_values_le (values : Table Parameter Value) : values.size ≤ Parameter.all.length := by
  have hle := (values.nodup_keys.subperm fun parameter _ => parameter.mem_all).length_le
  rwa [Table.keys, List.length_map] at hle

namespace Graph

variable {g : Graph}

/-- The lengths of all texts in a graph are numbers of 64 bits. -/
def Writable (g : Graph) : Prop :=
  ∀ x ∈ g.blocks.entries, ∀ y ∈ x.2.values.entries, y.2.Writable

instance (g : Graph) : Decidable g.Writable :=
  inferInstanceAs (Decidable (∀ x ∈ g.blocks.entries, ∀ y ∈ x.2.values.entries, y.2.Writable))

/-- All lengths in the snapshot of a sound graph are numbers of 64 bits if those of its texts
    are. -/
theorem Sound.writable_snapshot (hg : g.Sound) (htexts : g.Writable) : g.snapshot.Writable := by
  refine ⟨?_, ?_, ?_⟩
  · have hsize := Table.size_le_of_below fun id hid => Id.number_lt_iff.1 (hg.blockBelow id hid)
    rw [snapshot, List.length_map]
    exact hsize.trans_lt g.nextBlock.number.toNat_lt
  · have hsize := Table.size_le_of_below fun k hk => Id.number_lt_iff.1 (hg.linkBelow k hk)
    rw [snapshot, List.length_map]
    exact hsize.trans_lt g.nextLink.number.toNat_lt
  · intro r hr
    obtain ⟨x, hx, rfl⟩ := List.mem_map.1 hr
    constructor
    · have hsize := size_values_le x.2.values
      rw [List.length_map]
      exact hsize.trans_lt (by decide)
    · intro entry hentry
      obtain ⟨y, hy, rfl⟩ := List.mem_map.1 hentry
      exact ⟨y.1.utf8ByteSize_name_lt, htexts x hx y hy⟩

/-- Wherever editing starts and whatever edits are tried, in any order, as long as they do not use
    up the identifiers and leave no text too long for its length to be written: the snapshot of the
    graph is read back from its bytes and restored as the very same graph. Only a counter that is
    out of range keeps it from being restored, that of the blocks before that of the links. -/
theorem load_save_run {blocks links : Nat} (horigin : Origin g blocks links) (edits : List Edit)
    (hblocks : blocks < 2 ^ 64) (hlinks : links < 2 ^ 64) (hroom : g.Room edits)
    (htexts : (g.run edits).Writable) :
    Snapshot.ofBytes (g.run edits).snapshot.toBytes = .ok (g.run edits).snapshot ∧
      (g.run edits).snapshot.restore =
        if maxRestoredId < (g.run edits).nextBlock.number then
          .error (.idOutOfRange (g.run edits).nextBlock.number)
        else if maxRestoredId < (g.run edits).nextLink.number then
          .error (.idOutOfRange (g.run edits).nextLink.number)
        else .ok (g.run edits) := by
  have hsound := (horigin.sound hblocks hlinks).1.run hroom
  have hread := Snapshot.ofBytes_append (hsound.writable_snapshot htexts) []
  rw [List.append_nil] at hread
  exact ⟨hread, hsound.restore_snapshot_eq⟩

/-- A snapshot with the greatest counter that may be restored. -/
def limitSnapshot : Snapshot where
  blocks := [⟨⟨3⟩, .waitSeconds, [("duration", .text "2")]⟩]
  links := []
  nextBlock := ⟨maxRestoredId⟩
  nextLink := ⟨0⟩

def limitGraph : Graph where
  blocks := .ofList [(⟨3⟩, ⟨.waitSeconds, .ofList [(.duration, .text "2")], 0⟩)]
  nextBlock := ⟨maxRestoredId⟩

/-- After one more addition, a graph at the limit can no longer be restored. -/
theorem load_save_limitGraph : limitSnapshot.restore = .ok limitGraph ∧
    (limitGraph.run [.clearValue ⟨3⟩ "duration"]).snapshot.restore =
      .ok (limitGraph.run [.clearValue ⟨3⟩ "duration"]) ∧
    (limitGraph.run [.addBlock .ifThen]).snapshot.restore =
      .error (.idOutOfRange 0x8000000000000000) := by
  have hrestore : limitSnapshot.restore = .ok limitGraph := by rfl
  have hload := fun edits =>
    load_save_run (.restored hrestore) edits (Nat.two_pow_pos 64) (Nat.two_pow_pos 64)
  refine ⟨hrestore, ?_, ?_⟩
  · exact (hload [.clearValue ⟨3⟩ "duration"] ⟨by decide, by decide⟩ (by decide)).2
  · exact (hload [.addBlock .ifThen] ⟨by decide, by decide⟩ (by decide)).2

end Graph

end CommandBlocks
