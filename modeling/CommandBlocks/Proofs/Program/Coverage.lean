import CommandBlocks.Proofs.Program.Assembly
import CommandBlocks.Proofs.Results
import Mathlib.Data.List.NodupEquivFin

namespace CommandBlocks

namespace Statement

mutual

/-- A statement and, after it, those nested in it at any depth. -/
def withNested : Statement → List Statement
  | mk kind fields body => mk kind fields body :: bodyStatements body

def bodyStatements : Option (List Statement) → List Statement
  | none => []
  | some body => itemStatements body

def itemStatements : List Statement → List Statement
  | [] => []
  | statement :: rest => statement.withNested ++ itemStatements rest

end

/-- What is kept from the statements of a body to the statement around them holds of every
    statement. -/
protected theorem induction {motive : Statement → Prop}
    (mk : ∀ kind fields body, (∀ item ∈ Option.getD body [], motive item) →
      motive (.mk kind fields body)) (statement : Statement) : motive statement :=
  match statement with
  | .mk kind fields none => mk kind fields none nofun
  | .mk kind fields (some body) =>
    mk kind fields (some body) fun item _hitem => Statement.induction mk item
termination_by statement
decreasing_by
  have hsize := List.sizeOf_lt_of_mem _hitem
  simp only [Option.getD_some] at hsize
  simp only [Statement.mk.sizeOf_spec, Option.some.sizeOf_spec]
  omega

theorem itemStatements_append (items others : List Statement) :
    itemStatements (items ++ others) = itemStatements items ++ itemStatements others := by
  induction items with
  | nil => rfl
  | cons statement items ih =>
    rw [List.cons_append, itemStatements, itemStatements, ih, List.append_assoc]

theorem mem_itemStatements {statement : Statement} {items : List Statement} :
    statement ∈ itemStatements items ↔ ∃ item ∈ items, statement ∈ item.withNested := by
  induction items with
  | nil => simp [itemStatements]
  | cons item items ih => rw [itemStatements, List.mem_append, ih, List.exists_mem_cons_iff]

/-- What holds of a statement and of those nested in it holds of the statement and, for each
    statement of its body, of that one and of those nested in it. -/
theorem forall_mem_withNested_mk {p : Statement → Prop} {kind : Kind}
    {fields : List (Parameter × Value)} {body : Option (List Statement)} :
    (∀ statement ∈ (mk kind fields body).withNested, p statement) ↔
      p (mk kind fields body) ∧
        ∀ item ∈ body.getD [], ∀ statement ∈ item.withNested, p statement := by
  rw [withNested, List.forall_mem_cons]
  cases body with
  | none => simp [bodyStatements]
  | some items =>
    simp only [bodyStatements, mem_itemStatements, Option.getD_some]
    exact and_congr_right fun _ =>
      ⟨fun h item hitem statement hmem => h statement ⟨item, hitem, hmem⟩,
        fun h statement ⟨item, hitem, hmem⟩ => h item hitem statement hmem⟩

end Statement

/-- The statements of a program at every depth, in the order in which a listing shows them. -/
def Program.statements (program : Program) : List Statement := Statement.itemStatements program

theorem Statement.bodyStatements_of_isEmpty (body : List Statement) :
    bodyStatements (if body.isEmpty then none else some body) = Program.statements body := by
  cases body <;> rfl

namespace Graph

variable {g : Graph} {options : Options}

/-- A statement has the kind of a block and the fields that the block's values resolve to. -/
def IsStatementOf (g : Graph) (options : Options) (id : BlockId) (statement : Statement) : Prop :=
  ∃ block, g.blocks.get? id = some block ∧ statement.kind = block.kind ∧
    block.fields options id = .ok statement.fields

/-- If each part has the statements of its blocks, so has the whole. -/
private theorem statements_concatenated {ids : List BlockId}
    {read : BlockId → Except InputFault Program} {order : BlockId → List BlockId}
    (hread : ∀ id ∈ ids, ∀ part, read id = .ok part →
      List.Forall₂ (g.IsStatementOf options) (order id) (Program.statements part))
    {program : Program} (hok : concatenated (ids.map read) = .ok program) :
    List.Forall₂ (g.IsStatementOf options) (ids.flatMap order) program.statements := by
  induction ids generalizing program with
  | nil =>
    cases hok
    exact .nil
  | cons id ids ih =>
    rw [List.map_cons, concatenated, bind_eq_ok_iff] at hok
    obtain ⟨part, hpart, hok⟩ := hok
    rw [bind_eq_ok_iff] at hok
    obtain ⟨rest, hrest, hok⟩ := hok
    cases hok
    rw [List.flatMap_cons, Program.statements, Statement.itemStatements_append]
    refine List.rel_append (hread id List.mem_cons_self part hpart) (ih ?_ hrest)
    exact fun other hother => hread other (List.mem_cons_of_mem _ hother)

/-- Reading a chain gives one statement for each of the blocks that it visits, in order. -/
theorem statements_chain (hg : g.WellFormed) {hacyclic : g.Acyclic} {id : BlockId}
    (hid : g.blocks.contains id = true) {part : Program}
    (hok : g.chain options hacyclic id = .ok part) :
    List.Forall₂ (g.IsStatementOf options) (g.visits hacyclic id) part.statements := by
  induction id using hacyclic.wellFounded_swap_leads.induction generalizing part with
  | _ id ih =>
    obtain ⟨block, hget⟩ := Table.contains_iff.1 hid
    have hfollower : ∀ next ∈ g.followers id, ∀ part, g.chain options hacyclic next = .ok part →
        List.Forall₂ (g.IsStatementOf options) (g.visits hacyclic next)
          (Program.statements part) := by
      intro next hnext part hpart
      have hleads := leads_of_mem_followers hnext
      exact ih next hleads (hg.contains_of_leads hleads).2 hpart
    rw [chain_eq options hacyclic hget, bind_eq_ok_iff] at hok
    obtain ⟨fields, hfields, hok⟩ := hok
    rw [bind_eq_ok_iff] at hok
    obtain ⟨body, hbody, hok⟩ := hok
    rw [bind_eq_ok_iff] at hok
    obtain ⟨rest, hrest, hok⟩ := hok
    cases hok
    rw [visits_eq, followers, List.flatMap_append, Program.statements, Statement.itemStatements,
      Statement.withNested, Statement.bodyStatements_of_isEmpty, List.cons_append]
    refine .cons ⟨block, hget, rfl, hfields⟩ (List.rel_append ?_ ?_)
    · exact statements_concatenated
        (fun child hchild => hfollower child (List.mem_append_left _ hchild)) hbody
    · exact statements_concatenated
        (fun next hnext => hfollower next (List.mem_append_right _ hnext)) hrest

/-- The statements of a compiled program, in order, are those of the blocks that a reading meets. -/
theorem statements_compile (hg : g.WellFormed) {program : Program}
    (hcompile : g.compile options = .ok program) :
    ∃ order : List BlockId, order.Perm g.blocks.keys ∧
      List.Forall₂ (g.IsStatementOf options) order program.statements := by
  have hshaped := hg.shapeFault?_eq_none_iff.1 (shapeFault?_eq_none_of_compile hcompile)
  rw [compile_of_shaped hg hshaped, mapError_eq_ok_iff] at hcompile
  refine ⟨_, readingOrder_perm_keys hg hshaped, statements_concatenated ?_ hcompile⟩
  exact fun root hroot part hpart => statements_chain hg (mem_roots.1 hroot).1 hpart

/-- Compiling neither drops a block nor repeats one: the statements of the program, at all depths
    together, correspond one to one to the blocks of the graph. -/
theorem statements_equiv_blocks (hg : g.WellFormed) {program : Program}
    (hcompile : g.compile options = .ok program) :
    (∃ block : Fin program.statements.length ≃ {id : BlockId // g.blocks.contains id = true},
      ∀ i, g.IsStatementOf options (block i) program.statements[i]) ∧
      program.statements.length = g.blocks.size := by
  obtain ⟨order, hperm, hstatements⟩ := statements_compile hg hcompile
  have hlength : order.length = program.statements.length := hstatements.length_eq
  have hnodup : order.Nodup := hperm.nodup_iff.2 g.blocks.nodup_keys
  have hmem : ∀ id, id ∈ order ↔ g.blocks.contains id = true := by
    intro id
    rw [hperm.mem_iff, Table.mem_keys]
  refine ⟨⟨(finCongr hlength.symm).trans
    ((hnodup.getEquiv order).trans (Equiv.subtypeEquivRight hmem)), fun i => ?_⟩, ?_⟩
  · exact (List.forall₂_iff_get.1 hstatements).2 i (by omega) i.isLt
  · rw [← hlength, hperm.length_eq, Table.keys, List.length_map, Table.size]

theorem statements_nestedChains : nestedChains.WellFormed ∧
    ∃ program, nestedChains.compile {} = .ok program ∧
      (Program.statements program).length = nestedChains.blocks.size := by
  have hg : nestedChains.WellFormed := ⟨by decide, by decide⟩
  have hcompile : nestedChains.compile {} = .ok nestedProgram := by cbv
  exact ⟨hg, _, hcompile, (statements_equiv_blocks hg hcompile).2⟩

end Graph

end CommandBlocks
