import CommandBlocks.Proofs.Graph.Faults
import CommandBlocks.Proofs.Program.Contents
import CommandBlocks.Proofs.Program.Simulation

namespace CommandBlocks

namespace Statement

mutual

/-- The outline of a statement: its kind and the outlines of the statements nested in it. -/
def outline : Statement → Statement
  | mk kind _ body => mk kind [] (bodyOutline body)

def bodyOutline : Option (List Statement) → Option (List Statement)
  | none => none
  | some body => some (itemOutlines body)

def itemOutlines : List Statement → List Statement
  | [] => []
  | statement :: rest => statement.outline :: itemOutlines rest

end

theorem itemOutlines_eq_map (items : List Statement) : itemOutlines items = items.map outline := by
  induction items with
  | nil => rfl
  | cons item items ih => rw [itemOutlines, ih, List.map_cons]

/-- Lists have the same outlines if their statements have, one by one. -/
theorem map_outline_eq_iff {items items' : List Statement} :
    items.map outline = items'.map outline ↔
      List.Forall₂ (fun s t => s.outline = t.outline) items items' := by
  rw [← List.forall₂_eq_eq_eq, List.forall₂_map_left_iff, List.forall₂_map_right_iff]

/-- Statements of one kind have the same outline if those nested in them do, one by one. -/
theorem outline_eq_of_body {kind : Kind} {fields fields' : List (Parameter × Value)}
    {body body' : Option (List Statement)}
    (hbody : Option.Rel (List.Forall₂ fun s t => s.outline = t.outline) body body') :
    (mk kind fields body).outline = (mk kind fields' body').outline := by
  rw [outline, outline]
  cases hbody with
  | none => rfl
  | some hitems =>
    rw [bodyOutline, bodyOutline, itemOutlines_eq_map, itemOutlines_eq_map,
      map_outline_eq_iff.2 hitems]

end Statement

/-- The outlines of a program's statements. -/
def Program.outline (program : Program) : Program := program.map Statement.outline

namespace Graph

variable {g h : Graph}

/-- A block without the values that were entered for it. -/
def unvalued (blocks : Table BlockId Block) : Table BlockId Block :=
  blocks.map fun _ block => { block with values := ∅ }

/-- Child counts are known from the links, so without their values the blocks of a well-formed graph
    are known from their kinds. -/
theorem unvalued_eq (hg : g.WellFormed) (hh : h.WellFormed)
    (hkinds : ∀ id, (g.blocks.get? id).map (·.kind) = (h.blocks.get? id).map (·.kind))
    (hlinks : g.links = h.links) : unvalued g.blocks = unvalued h.blocks := by
  apply Table.eq_of_get?
  intro id
  have hkind := hkinds id
  rw [unvalued, unvalued, Table.get?_map, Table.get?_map]
  cases hget : g.blocks.get? id with
  | none =>
    rw [hget, Option.map_none, eq_comm, Option.map_eq_none_iff] at hkind
    rw [hkind]
  | some block =>
    rw [hget, Option.map_some, eq_comm, Option.map_eq_some_iff] at hkind
    obtain ⟨block', hget', hkind⟩ := hkind
    have hcount := hg.childCount_eq hget
    have hcount' := hh.childCount_eq hget'
    rw [hlinks, ← hcount'] at hcount
    rw [hget', Option.map_some, Option.map_some, hkind, hcount]

theorem keys_eq_of_unvalued (hblocks : unvalued g.blocks = unvalued h.blocks) :
    g.blocks.keys = h.blocks.keys := by
  rw [← Table.keys_map g.blocks fun _ block => { block with values := ∅ },
    ← Table.keys_map h.blocks fun _ block => { block with values := ∅ }]
  exact congrArg Table.keys hblocks

/-- The check for room does not look at values. -/
theorem overfull?_eq_of_unvalued (hblocks : unvalued g.blocks = unvalued h.blocks) :
    g.overfull? = h.overfull? := by
  have hfind : ∀ k : Graph, k.overfull? =
      (unvalued k.blocks).entries.findSome? fun entry => excess? entry.1 entry.2 := by
    intro k
    rw [unvalued, Table.map, List.findSome?_map]
    rfl
  rw [hfind, hfind, hblocks]

/-- The checks made before compiling do not look at values. -/
theorem shapeFault?_eq_of_unvalued (hblocks : unvalued g.blocks = unvalued h.blocks)
    (hlinks : g.links = h.links) : g.shapeFault? = h.shapeFault? := by
  have hparents : g.severalParents? = h.severalParents? := by
    rw [severalParents?, severalParents?, hlinks]
  have hsuccessors : g.severalSuccessors? = h.severalSuccessors? := by
    rw [severalSuccessors?, severalSuccessors?, hlinks]
  have hcycle : g.cycle? = h.cycle? := by
    have hsuccs : g.successors = h.successors := by
      funext id
      rw [successors, successors, hlinks]
    rw [cycle?, cycle?, keys_eq_of_unvalued hblocks, hsuccs]
  rw [shapeFault?, shapeFault?, hparents, hsuccessors, overfull?_eq_of_unvalued hblocks, hcycle]

/-- The values of the blocks and the options of compiling do not show in the outline of the program.
    Whether a fault of the shape is reported, and which, does not depend on them either. -/
theorem outline_compile (hg : g.WellFormed) (hh : h.WellFormed)
    (hkinds : ∀ id, (g.blocks.get? id).map (·.kind) = (h.blocks.get? id).map (·.kind))
    (hlinks : g.links = h.links) (options options' : Options) :
    (∀ program program', g.compile options = .ok program → h.compile options' = .ok program' →
      program.outline = program'.outline) ∧
    ∀ fault, g.compile options = .error (.shape fault) ↔
      h.compile options' = .error (.shape fault) := by
  have hblocks := unvalued_eq hg hh hkinds hlinks
  have hshape := shapeFault?_eq_of_unvalued hblocks hlinks
  refine ⟨fun program program' hcompile hcompile' => ?_, fun fault => ?_⟩
  · have hshaped' := hh.shapeFault?_eq_none_iff.1 (shapeFault?_eq_none_of_compile hcompile')
    -- both graphs compile, so a block has fields in the one whenever it has in the other
    have hsimulated : g.SimulatedBy h options options' fun s t => s.outline = t.outline := by
      intro id block fields hget _
      have hkind := hkinds id
      rw [hget, Option.map_some, eq_comm, Option.map_eq_some_iff] at hkind
      obtain ⟨block', hget', hkind⟩ := hkind
      obtain ⟨fields', hok'⟩ := hh.exists_fields_of_compile hcompile' hget'
      refine ⟨block', fields', hget', hok', fun body body' hbody => ?_⟩
      rw [hkind]
      exact Statement.outline_eq_of_body hbody
    obtain ⟨found, hfound, hsame⟩ := exists_compile_related hg hh hshaped'
      (keys_eq_of_unvalued hblocks).symm hlinks.symm hsimulated hcompile
    obtain rfl := Except.ok.inj (hfound.symm.trans hcompile')
    exact Statement.map_outline_eq_iff.2 hsame
  · rw [hg.compile_eq_shape_iff, hh.compile_eq_shape_iff, hshape]

/-- A loop in which a pin is set if it is cold, with a pause after that. -/
def heatedLoop : Graph where
  blocks := .ofList [(⟨0⟩, ⟨.repeatTimes, .ofList [(.count, .text "12")], 1⟩),
    (⟨1⟩, ⟨.ifThen, .ofList [(.condition, .text "cold")], 1⟩),
    (⟨2⟩, ⟨.gpioWrite, .ofList [(.pin, .text " 4"), (.value, .boolean true)], 0⟩),
    (⟨3⟩, ⟨.waitSeconds, .ofList [(.duration, .boolean true)], 0⟩)]
  links := .ofList [(⟨0⟩, ⟨⟨1⟩, .child, ⟨2⟩⟩), (⟨1⟩, ⟨⟨1⟩, .next, ⟨3⟩⟩),
    (⟨2⟩, ⟨⟨0⟩, .child, ⟨1⟩⟩)]
  nextBlock := ⟨4⟩
  nextLink := ⟨3⟩

/-- The same blocks and links, with a text that stands for no number and hardly any other value. -/
def blankLoop : Graph where
  blocks := .ofList [(⟨0⟩, ⟨.repeatTimes, .ofList [(.count, .text "often")], 1⟩),
    (⟨1⟩, { kind := .ifThen, childCount := 1 }),
    (⟨2⟩, ⟨.gpioWrite, .ofList [(.pin, .text " ")], 0⟩), (⟨3⟩, { kind := .waitSeconds })]
  links := heatedLoop.links
  nextBlock := ⟨9⟩
  nextLink := ⟨5⟩

theorem outline_heatedLoop : heatedLoop.WellFormed ∧ blankLoop.WellFormed ∧
    ∃ program program', heatedLoop.compile ⟨true, true⟩ = .ok program ∧
      blankLoop.compile ⟨false, false⟩ = .ok program' ∧
      Program.outline program = Program.outline program' ∧
      Program.outline program' = [.mk .repeatTimes [] (some
        [.mk .ifThen [] (some [.mk .gpioWrite [] none]), .mk .waitSeconds [] none])] := by
  have hg : heatedLoop.WellFormed := ⟨by decide, by decide⟩
  have hh : blankLoop.WellFormed := ⟨by decide, by decide⟩
  have hkinds : heatedLoop.blocks.map (fun _ block => block.kind) =
      blankLoop.blocks.map fun _ block => block.kind := by decide
  have hsame : ∀ id, (heatedLoop.blocks.get? id).map (·.kind) =
      (blankLoop.blocks.get? id).map (·.kind) := by
    intro id
    have hid := congrArg (·.get? id) hkinds
    simpa only [Table.get?_map] using hid
  have hshaped : heatedLoop.Shaped := hg.shapeFault?_eq_none_iff.1 (by cbv)
  have hcontent : ∀ id ∈ heatedLoop.blocks.keys,
      (heatedLoop.content? ⟨true, true⟩ id).isSome = true := by decide
  obtain ⟨program, hcompile⟩ :=
    hg.exists_compile_iff.2 ⟨hshaped, fun id hid => hcontent id (Table.mem_keys.2 hid)⟩
  have hcompile' : blankLoop.compile ⟨false, false⟩ = .ok [.mk .repeatTimes
      [(.count, .text "often")] (some
        [.mk .ifThen [] (some [.mk .gpioWrite [] none]), .mk .waitSeconds [] none])] := by cbv
  exact ⟨hg, hh, program, _, hcompile, hcompile',
    (outline_compile hg hh hsame rfl ⟨true, true⟩ ⟨false, false⟩).1 _ _ hcompile hcompile', rfl⟩

end Graph

end CommandBlocks
