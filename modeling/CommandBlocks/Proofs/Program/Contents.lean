import CommandBlocks.Proofs.Program.Coverage
import CommandBlocks.Proofs.Program.Fields
import Mathlib.Data.Multiset.MapFold

namespace CommandBlocks

/-- The kinds and fields of a program's statements at all depths together, each as often as it
    occurs. -/
def Program.contents (program : Program) : Multiset (Kind × List (Parameter × Value)) :=
  ↑(program.statements.map fun statement => (statement.kind, statement.fields))

namespace Graph

variable {g h : Graph} {options : Options}

/-- What the statement of a block says, if the block's values have no fault. -/
def content? (g : Graph) (options : Options) (id : BlockId) :
    Option (Kind × List (Parameter × Value)) :=
  (g.blocks.get? id).bind fun block =>
    (block.fields options id).toOption.map fun fields => (block.kind, fields)

/-- What a block says is its kind and its fields. -/
theorem content?_eq_some_iff {id : BlockId} {kind : Kind} {fields : List (Parameter × Value)} :
    g.content? options id = some (kind, fields) ↔ ∃ block, g.blocks.get? id = some block ∧
      block.fields options id = .ok fields ∧ block.kind = kind := by
  rw [content?, Option.bind_eq_some_iff]
  refine exists_congr fun block => and_congr_right fun _ => ?_
  cases block.fields options id with
  | error fault => simp [Except.toOption]
  | ok found => simp [Except.toOption, and_comm]

/-- Child counts do not matter to what a statement says. -/
theorem content?_congr {id : BlockId} {old new : Block} (hold : g.blocks.get? id = some old)
    (hnew : h.blocks.get? id = some new) (hkind : new.kind = old.kind)
    (hvalues : new.values = old.values) : h.content? options id = g.content? options id := by
  rw [content?, content?, hold, hnew, Option.bind_some, Option.bind_some,
    Block.fields_congr hkind (Block.entered?_congr hvalues), hkind]

/-- A block has no fault in its values exactly if it says something. -/
theorem inputFault?_eq_none_iff {id : BlockId} (hid : g.blocks.contains id = true) :
    g.inputFault? options id = none ↔ (g.content? options id).isSome = true := by
  obtain ⟨block, hget⟩ := Table.contains_iff.1 hid
  rw [inputFault?, content?, hget, Option.bind_some, Option.bind_some]
  cases block.fields options id <;> simp [faultOf?, Except.toOption]

/-- A graph compiles exactly if it has the right shape and no block has a fault in its values. -/
theorem WellFormed.exists_compile_iff (hg : g.WellFormed) :
    (∃ program, g.compile options = .ok program) ↔
      g.Shaped ∧ ∀ id, g.blocks.contains id = true → (g.content? options id).isSome = true := by
  constructor
  · rintro ⟨program, hcompile⟩
    have hshaped := hg.shapeFault?_eq_none_iff.1 (shapeFault?_eq_none_of_compile hcompile)
    refine ⟨hshaped, fun id hid => (inputFault?_eq_none_iff hid).1 ?_⟩
    rw [compile_of_shaped hg hshaped, mapError_eq_ok_iff] at hcompile
    have hfault := faultOf?_reading hg options hshaped.acyclic
    rw [hcompile, faultOf?, eq_comm, List.findSome?_eq_none_iff] at hfault
    exact hfault id ((mem_readingOrder_iff hg hshaped).2 hid)
  · rintro ⟨hshaped, hcontent⟩
    have hfault := faultOf?_reading hg options hshaped.acyclic
    rw [List.findSome?_eq_none_iff.2] at hfault
    · rw [compile_of_shaped hg hshaped]
      cases hreading : g.reading options hshaped.acyclic with
      | error fault =>
        rw [hreading] at hfault
        cases hfault
      | ok program => exact ⟨program, rfl⟩
    · intro id hmem
      have hid := (mem_readingOrder_iff hg hshaped).1 hmem
      exact (inputFault?_eq_none_iff hid).2 (hcontent id hid)

/-- Every block of a graph that compiles has fields. -/
theorem WellFormed.exists_fields_of_compile (hg : g.WellFormed) {program : Program}
    (hcompile : g.compile options = .ok program) {id : BlockId} {block : Block}
    (hget : g.blocks.get? id = some block) :
    ∃ fields, block.fields options id = .ok fields := by
  obtain ⟨-, hcontent⟩ := hg.exists_compile_iff.1 ⟨program, hcompile⟩
  obtain ⟨⟨kind, fields⟩, hself⟩ :=
    Option.isSome_iff_exists.1 (hcontent id (Table.contains_of_get? hget))
  obtain ⟨found, hfound, hfields, -⟩ := content?_eq_some_iff.1 hself
  obtain rfl : found = block := Option.some_inj.1 (hfound.symm.trans hget)
  exact ⟨fields, hfields⟩

/-- The statements of a program say what the blocks of its graph say. -/
theorem WellFormed.contents_of_compile (hg : g.WellFormed) {program : Program}
    (hcompile : g.compile options = .ok program) :
    program.contents.map some = ↑(g.blocks.keys.map (g.content? options)) := by
  obtain ⟨order, hperm, hstatements⟩ := statements_compile hg hcompile
  have hsays : List.Forall₂ (fun id (statement : Statement) =>
      g.content? options id = some (statement.kind, statement.fields)) order
        program.statements := by
    refine hstatements.imp fun id statement hof => ?_
    obtain ⟨block, hget, hkind, hfields⟩ := hof
    exact content?_eq_some_iff.2 ⟨block, hget, hfields, hkind.symm⟩
  have hmap : order.map (g.content? options) =
      program.statements.map fun statement => some (statement.kind, statement.fields) := by
    rwa [← List.forall₂_eq_eq_eq, List.forall₂_map_left_iff, List.forall₂_map_right_iff]
  rw [Program.contents, Multiset.map_coe, List.map_map, Multiset.coe_eq_coe, Function.comp_def,
    ← hmap]
  exact hperm.map _

/-- When a graph compiles, so does every graph of the right shape whose blocks say the same and are
    among its blocks. Its program lacks what the blocks say that are gone. -/
theorem exists_compile_of_content?_eq (hg : g.WellFormed) (hh : h.WellFormed)
    (hshaped : h.Shaped) (gone : List BlockId)
    (hkeys : g.blocks.keys.Perm (gone ++ h.blocks.keys))
    (hsame : ∀ id, h.blocks.contains id = true → h.content? options id = g.content? options id)
    {program : Program} (hcompile : g.compile options = .ok program) :
    ∃ after, h.compile options = .ok after ∧
      program.contents.map some =
        ↑(gone.map (g.content? options)) + Multiset.map some after.contents := by
  obtain ⟨-, hcontent⟩ := hg.exists_compile_iff.1 ⟨program, hcompile⟩
  have hcontains : ∀ id, h.blocks.contains id = true → g.blocks.contains id = true := by
    intro id hid
    rw [← Table.mem_keys] at hid ⊢
    exact hkeys.symm.subset (List.mem_append_right _ hid)
  obtain ⟨after, hafter⟩ := hh.exists_compile_iff.2
    ⟨hshaped, fun id hid => hsame id hid ▸ hcontent id (hcontains id hid)⟩
  have hkept : h.blocks.keys.map (h.content? options) =
      h.blocks.keys.map (g.content? options) :=
    List.map_congr_left fun id hid => hsame id (Table.mem_keys.1 hid)
  refine ⟨after, hafter, ?_⟩
  rw [hg.contents_of_compile hcompile, hh.contents_of_compile hafter, hkept, Multiset.coe_add,
    ← List.map_append, Multiset.coe_eq_coe]
  exact hkeys.map _

end Graph

end CommandBlocks
