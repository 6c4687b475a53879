import CommandBlocks.Proofs.Canvas.Import
import CommandBlocks.Proofs.Editing.Edits
import Mathlib.Data.List.Permutation

namespace CommandBlocks.Graph

variable {g : Graph}

/-- A graph to start from, with the numbers of blocks and of links added to make it. What was added
    to a restored graph in its past does not count. -/
inductive Origin : Graph → Nat → Nat → Prop
  | empty : Origin ∅ 0 0
  | restored {s : Snapshot} {g : Graph} (hrestore : s.restore = .ok g) : Origin g 0 0
  | imported {canvas : Canvas} {policy : EdgePolicy} {imported : Imported}
    (himport : canvas.toGraph policy = .ok imported) :
    Origin imported.graph canvas.nodes.length canvas.edges.length

/-- Editing starts from a sound graph, with counters that are no further up than what was added to
    make it. -/
theorem Origin.sound {blocks links : Nat} (horigin : Origin g blocks links)
    (hblocks : blocks < 2 ^ 64) (hlinks : links < 2 ^ 64) :
    g.Sound ∧ g.nextBlock.number.toNat < 2 ^ 63 + blocks ∧
      g.nextLink.number.toNat < 2 ^ 63 + links := by
  cases horigin with
  | empty => exact ⟨sound_empty, by decide, by decide⟩
  | restored hrestore =>
    obtain ⟨hsound, hnextBlock, hnextLink⟩ := Snapshot.sound_of_restore hrestore
    exact ⟨hsound, by omega, by omega⟩
  | imported himport =>
    have hbuilt := Canvas.built_of_toGraph hblocks hlinks himport
    have hnextBlock := hbuilt.nextBlock
    have hnextLink := hbuilt.nextLink
    exact ⟨hbuilt.sound, by omega, by omega⟩

/-- Wherever editing starts and whatever edits are tried, in any order: links join blocks of the
    graph, child counts fit the links, so that counting again changes nothing, values are kept for
    declared parameters only, and both counters stay above the identifiers in use. An edit that
    fails changes nothing. -/
theorem sound_run {blocks links : Nat} (horigin : Origin g blocks links) (edits : List Edit)
    (hblocks : blocks + addedBlocks edits < 2 ^ 63)
    (hlinks : links + g.addedLinks edits < 2 ^ 63) :
    (g.run edits).Sound ∧ (g.run edits).recount = g.run edits ∧
      ∀ edit fault, ((g.run edits).perform edit).1 = .error fault →
        ((g.run edits).perform edit).2 = g.run edits := by
  obtain ⟨hsound, hnextBlock, hnextLink⟩ := horigin.sound (by omega) (by omega)
  have hroom : g.Room edits := by
    constructor
    · omega
    · omega
  have hkept : (g.run edits).Sound :=
    (hsound.run_induction (motive := fun _ => True) (fun _ _ _ _ _ _ => trivial) hroom trivial).1
  exact ⟨hkept, hkept.recount_eq, fun edit fault hfails => perform_of_error hfails⟩

/-- A document whose two blocks hold and follow each other. -/
def circularCanvas : Canvas where
  nodes := [⟨"loop", "repeat-n", .ofList [("count", .string "3")]⟩, ⟨"rest", "wait-sec", ∅⟩]
  edges := [⟨"", "loop", "child", "rest", "in"⟩, ⟨"", "rest", "out", "loop", "in"⟩]

def circularImport : Imported where
  graph := {
    blocks := .ofList [(⟨0⟩, ⟨.repeatTimes, .ofList [(.count, .text "3")], 1⟩),
      (⟨1⟩, { kind := .waitSeconds })],
    links := .ofList [(⟨0⟩, ⟨⟨0⟩, .child, ⟨1⟩⟩), (⟨1⟩, ⟨⟨1⟩, .next, ⟨0⟩⟩)],
    nextBlock := ⟨2⟩,
    nextLink := ⟨2⟩ }
  nodeNames := .ofList [(⟨0⟩, "loop"), (⟨1⟩, "rest")]

theorem sound_run_circularCanvas :
    circularCanvas.toGraph .unruled = .ok circularImport ∧
      (circularImport.graph.run [.removeBlock ⟨1⟩, .addBlock .ifThen,
        .addLink ⟨⟨2⟩, .child, ⟨0⟩⟩, .setValue ⟨2⟩ "count" (.text "2")]).Sound := by
  have himport : circularCanvas.toGraph .unruled = .ok circularImport := by rfl
  refine ⟨himport, (sound_run (.imported himport) _ ?_ ?_).1⟩
  · decide
  · decide +kernel

end CommandBlocks.Graph
