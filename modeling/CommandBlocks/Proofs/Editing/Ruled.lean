import CommandBlocks.Proofs.Editing.Edits
import CommandBlocks.Proofs.Graph.Rules
import CommandBlocks.Proofs.Program.Assembly

namespace CommandBlocks.Graph

variable {g h : Graph} {edit : Edit} {edits : List Edit}

namespace Ruled

/-- The rules for links do not look at values. -/
theorem revalues (hg : g.Ruled) (hvalues : g.Revalues h) : h.Ruled := by
  obtain ⟨id, block, values, hget, -, rfl⟩ := hvalues
  apply hg.of_fewer
  · intro k link hlink
    exact hlink
  · intro other found hother
    left
    obtain ⟨rfl, rfl⟩ | ⟨-, hold⟩ := Table.get?_insert_eq_some.1 hother
    · exact ⟨block, hget, rfl⟩
    · exact ⟨found, hold, rfl⟩

/-- Whatever an edit makes of a graph that keeps the rules keeps them too. -/
theorem makes (hg : g.Ruled) (hsound : g.Sound) (hmakes : g.Makes edit h) : h.Ruled := by
  cases hmakes with
  | addBlock kind =>
    apply hg.of_fewer
    · intro k link hlink
      exact hlink
    · intro id block hget
      obtain ⟨rfl, -⟩ | ⟨-, hold⟩ := Table.get?_insert_eq_some.1 hget
      · exact .inr hsound.nestedIn_nextBlock
      · exact .inl ⟨block, hold, rfl⟩
  | removeBlock hremove =>
    obtain ⟨links, lost, rfl, hlinks, -⟩ := of_removeBlock hremove
    apply hg.of_fewer
    · intro k link hlink
      exact ((hlinks k link).1 hlink).1
    · intro id block hget
      obtain ⟨old, hold, hkind, -, -⟩ := of_get?_recountWhere hget
      exact .inl ⟨old, (Table.get?_erase_eq_some.1 hold).2, hkind⟩
  | setValue hset => exact hg.revalues (revalues_of_setValue hset)
  | clearValue hclear => exact hg.revalues (revalues_of_clearValue hclear)
  | addLink hfits =>
    exact (ruled_drawLink_iff hsound.toWellFormed hsound.get?_nextLink hfits.source hfits.target).2
      ⟨hg, hfits⟩
  | removeLink hremove =>
    obtain ⟨-, rfl⟩ := of_removeLink hremove
    apply hg.of_fewer
    · intro k link hlink
      exact (Table.get?_erase_eq_some.1 hlink).2
    · intro id block hget
      obtain ⟨old, hold, hkind, -, -⟩ := of_get?_recountWhere hget
      exact .inl ⟨old, hold, hkind⟩
  | recount => rwa [hsound.recount_eq]
  | reload hrestore => rwa [hsound.eq_of_restore_snapshot hrestore]

/-- When a graph that keeps the rules is not compiled, a value is at fault or a block has several
    links to next blocks. -/
theorem compile_eq_error (hg : g.Ruled) (hsound : g.Sound) {options : Options}
    {fault : CompileFault} (herror : g.compile options = .error fault) :
    (∃ id, fault = .shape (.severalSuccessors id)) ∨ ∃ cause, fault = .input cause := by
  cases hseveral : g.severalSuccessors? with
  | none =>
    have hshape : g.shapeFault? = none := (hg.shapeFault?_eq hsound.toWellFormed).trans hseveral
    have hshaped := hsound.shapeFault?_eq_none_iff.1 hshape
    rw [compile_of_shaped hsound.toWellFormed hshaped] at herror
    obtain ⟨cause, hcause⟩ := exists_of_mapError_eq_error herror
    exact .inr ⟨cause, hcause.symm⟩
  | some shape =>
    rw [compile, hg.shapeFault?_eq hsound.toWellFormed, hseveral, Except.error.injEq] at herror
    rw [severalSuccessors?, Option.map_eq_some_iff] at hseveral
    obtain ⟨id, -, rfl⟩ := hseveral
    exact .inl ⟨id, herror.symm⟩

/-- A graph that keeps the rules is reported to have several links to next blocks exactly if some
    block has them. -/
theorem compile_eq_severalSuccessors_iff (hg : g.Ruled) (hsound : g.Sound) (options : Options) :
    (∃ id, g.compile options = .error (.shape (.severalSuccessors id))) ↔
      ∃ id, g.blocks.contains id = true ∧ 2 ≤ (g.outgoing id .next).length := by
  constructor
  · rintro ⟨id, herror⟩
    by_contra hnone
    have honeNext : ∀ id, (g.outgoing id .next).length ≤ 1 := by
      intro other
      by_contra hmany
      obtain ⟨⟨k, link⟩, hmem⟩ := List.exists_mem_of_length_pos
        (show 0 < (g.outgoing other .next).length by omega)
      obtain ⟨hlink, rfl, -⟩ := mem_outgoing.1 hmem
      exact hnone ⟨link.source, hsound.contains_source hlink, by omega⟩
    have hshaped := hg.shaped honeNext
    rw [compile_of_shaped hsound.toWellFormed hshaped] at herror
    obtain ⟨cause, hcause⟩ := exists_of_mapError_eq_error herror
    cases hcause
  · rintro ⟨id, -, hmany⟩
    cases hseveral : g.severalSuccessors? with
    | none =>
      have hle := severalSuccessors?_eq_none_iff.1 hseveral id
      omega
    | some shape =>
      rw [severalSuccessors?, Option.map_eq_some_iff] at hseveral
      obtain ⟨repeated, hrepeated, rfl⟩ := hseveral
      refine ⟨repeated, ?_⟩
      rw [compile, hg.shapeFault?_eq hsound.toWellFormed, severalSuccessors?, hrepeated]
      rfl

end Ruled

/-- However the empty graph is edited: at most one link ends at each block, no block holds more
    blocks than its kind allows, and there is no cycle. All that may keep the graph from being
    compiled is a fault in a value, or several links to next blocks, which are then reported. -/
theorem ruled_run (edits : List Edit) (hblocks : addedBlocks edits < 2 ^ 63)
    (hlinks : (∅ : Graph).addedLinks edits < 2 ^ 63) :
    ((∅ : Graph).run edits).Ruled ∧ ∀ options,
      (∀ fault, ((∅ : Graph).run edits).compile options = .error fault →
        (∃ id, fault = .shape (.severalSuccessors id)) ∨
          (∃ id parameter, fault = .input (.missing id parameter)) ∨
          ∃ id parameter found, fault = .input (.noNumber id parameter found)) ∧
      ((∃ id, ((∅ : Graph).run edits).compile options = .error (.shape (.severalSuccessors id))) ↔
        ∃ id, ((∅ : Graph).run edits).blocks.contains id = true ∧
          2 ≤ (((∅ : Graph).run edits).outgoing id .next).length) := by
  have hroom : (∅ : Graph).Room edits := by
    have hnextBlock : (∅ : Graph).nextBlock.number.toNat = 0 := rfl
    have hnextLink : (∅ : Graph).nextLink.number.toNat = 0 := rfl
    constructor
    · omega
    · omega
  obtain ⟨hsound, hruled⟩ := sound_empty.run_induction (motive := Ruled)
    (fun g edit h hg hmakes hinit => hinit.makes hg hmakes) hroom ruled_empty
  refine ⟨hruled, fun options => ⟨fun fault herror => ?_, ?_⟩⟩
  · obtain hshape | ⟨cause, rfl⟩ := hruled.compile_eq_error hsound herror
    · exact .inl hshape
    · cases cause with
      | missing id parameter => exact .inr (.inl ⟨id, parameter, rfl⟩)
      | noNumber id parameter found => exact .inr (.inr ⟨id, parameter, found, rfl⟩)
  · exact hruled.compile_eq_severalSuccessors_iff hsound options

/-- Edits that end in two links to next blocks, after a cycle was refused. -/
def forkingEdits : List Edit :=
  [.addBlock .repeatTimes, .addBlock .waitSeconds, .addBlock .captureImage,
    .addBlock .captureImage, .setValue ⟨1⟩ "duration" (.text "2"), .addLink ⟨⟨0⟩, .child, ⟨1⟩⟩,
    .addLink ⟨⟨1⟩, .next, ⟨2⟩⟩, .addLink ⟨⟨2⟩, .next, ⟨0⟩⟩, .reload,
    .addLink ⟨⟨1⟩, .next, ⟨3⟩⟩, .removeLink ⟨9⟩]

theorem ruled_forkingEdits : addedBlocks forkingEdits < 2 ^ 63 ∧
    (∅ : Graph).addedLinks forkingEdits < 2 ^ 63 ∧ ((∅ : Graph).run forkingEdits).Ruled ∧
    ∃ id, ((∅ : Graph).run forkingEdits).compile {} =
      .error (.shape (.severalSuccessors id)) := by
  have hblocks : addedBlocks forkingEdits < 2 ^ 63 := by decide
  have hlinks : (∅ : Graph).addedLinks forkingEdits < 2 ^ 63 := by decide +kernel
  obtain ⟨hruled, hcompile⟩ := ruled_run forkingEdits hblocks hlinks
  refine ⟨hblocks, hlinks, hruled, (hcompile {}).2.2 ⟨⟨1⟩, ?_, ?_⟩⟩
  · decide +kernel
  · decide +kernel

end CommandBlocks.Graph
