import CommandBlocks.Proofs.Program.Assembly
import CommandBlocks.Proofs.Results
import Mathlib.Data.Option.Basic

namespace CommandBlocks.Graph

variable {g h : Graph} {options options' : Options} {related : Statement → Statement → Prop}

/-- Where a block of one graph has fields, the block of the same identifier in another graph has
    fields too; and the statements of the two are related if those nested in them are. -/
def SimulatedBy (g h : Graph) (options options' : Options)
    (related : Statement → Statement → Prop) : Prop :=
  ∀ id block fields, g.blocks.get? id = some block → block.fields options id = .ok fields →
    ∃ block' fields', h.blocks.get? id = some block' ∧ block'.fields options' id = .ok fields' ∧
      ∀ body body', Option.Rel (List.Forall₂ related) body body' →
        related (.mk block.kind fields body) (.mk block'.kind fields' body')

/-- If the parts can be read in both graphs as related programs, so can the whole. -/
private theorem exists_concatenated_related {ids : List BlockId}
    {read read' : BlockId → Except InputFault Program}
    (hread : ∀ id ∈ ids, ∀ part, read id = .ok part →
      ∃ part', read' id = .ok part' ∧ List.Forall₂ related part part')
    {program : Program} (hok : concatenated (ids.map read) = .ok program) :
    ∃ program', concatenated (ids.map read') = .ok program' ∧
      List.Forall₂ related program program' := by
  induction ids generalizing program with
  | nil =>
    cases hok
    exact ⟨[], rfl, .nil⟩
  | cons id ids ih =>
    rw [List.map_cons, concatenated, bind_eq_ok_iff] at hok
    obtain ⟨first, hfirst, hok⟩ := hok
    rw [bind_eq_ok_iff] at hok
    obtain ⟨rest, hrest, hok⟩ := hok
    cases hok
    obtain ⟨first', hfirst', hrelated⟩ := hread id List.mem_cons_self first hfirst
    obtain ⟨rest', hrest', hrelateds⟩ :=
      ih (fun other hother => hread other (List.mem_cons_of_mem _ hother)) hrest
    refine ⟨first' ++ rest', ?_, List.rel_append hrelated hrelateds⟩
    rw [List.map_cons, concatenated, hfirst', hrest']
    rfl

private theorem rel_body {body body' : List Statement}
    (hrelated : List.Forall₂ related body body') :
    Option.Rel (List.Forall₂ related) (if body.isEmpty then none else some body)
      (if body'.isEmpty then none else some body') := by
  cases hrelated with
  | nil => exact .none
  | cons hfirst hrest => exact .some (.cons hfirst hrest)

/-- A chain that is read in the first graph is read in the second as a related program. -/
private theorem exists_chain_related (hg : g.WellFormed) (hlinks : h.links = g.links)
    {hacyclic : g.Acyclic} {hacyclic' : h.Acyclic}
    (hblocks : g.SimulatedBy h options options' related) {id : BlockId}
    (hid : g.blocks.contains id = true) {part : Program}
    (hok : g.chain options hacyclic id = .ok part) :
    ∃ part', h.chain options' hacyclic' id = .ok part' ∧ List.Forall₂ related part part' := by
  induction id using hacyclic.wellFounded_swap_leads.induction generalizing part with
  | _ id ih =>
    obtain ⟨block, hget⟩ := Table.contains_iff.1 hid
    have hfollower : ∀ next ∈ g.followers id, ∀ part, g.chain options hacyclic next = .ok part →
        ∃ part', h.chain options' hacyclic' next = .ok part' ∧
          List.Forall₂ related part part' := by
      intro next hnext part hpart
      have hleads := leads_of_mem_followers hnext
      exact ih next hleads (hg.contains_of_leads hleads).2 hpart
    have hchildren : h.children id = g.children id := by simp only [children, outgoing, hlinks]
    have hsuccessor : h.successor? id = g.successor? id := by
      simp only [successor?, outgoing, hlinks]
    rw [chain_eq options hacyclic hget, bind_eq_ok_iff] at hok
    obtain ⟨fields, hself, hok⟩ := hok
    rw [bind_eq_ok_iff] at hok
    obtain ⟨body, hbody, hok⟩ := hok
    rw [bind_eq_ok_iff] at hok
    obtain ⟨rest, hrest, hok⟩ := hok
    cases hok
    obtain ⟨block', fields', hget', hself', hrelated⟩ := hblocks id block fields hget hself
    obtain ⟨body', hbody', hbodies⟩ := exists_concatenated_related
      (fun child hchild => hfollower child (List.mem_append_left _ hchild)) hbody
    obtain ⟨rest', hrest', hrests⟩ := exists_concatenated_related
      (fun next hnext => hfollower next (List.mem_append_right _ hnext)) hrest
    refine ⟨_, ?_, .cons (hrelated _ _ (rel_body hbodies)) hrests⟩
    rw [chain_eq options' hacyclic' hget', hchildren, hsuccessor, hself', hbody', hrest']
    rfl

/-- When the blocks of a graph are simulated by those of a graph with the same links, and the graph
    compiles, so does the other one, to a program that is related statement by statement. -/
theorem exists_compile_related (hg : g.WellFormed) (hh : h.WellFormed) (hshaped' : h.Shaped)
    (hkeys : h.blocks.keys = g.blocks.keys) (hlinks : h.links = g.links)
    (hblocks : g.SimulatedBy h options options' related) {program : Program}
    (hcompile : g.compile options = .ok program) :
    ∃ program', h.compile options' = .ok program' ∧ List.Forall₂ related program program' := by
  have hshaped := hg.shapeFault?_eq_none_iff.1 (shapeFault?_eq_none_of_compile hcompile)
  have hroots : h.roots = g.roots := by simp only [roots, incoming, hkeys, hlinks]
  rw [compile_of_shaped hg hshaped, mapError_eq_ok_iff] at hcompile
  simp only [compile_of_shaped hh hshaped', mapError_eq_ok_iff, reading, hroots]
  refine exists_concatenated_related (fun root hroot part hpart => ?_) hcompile
  exact exists_chain_related hg hlinks hblocks (mem_roots.1 hroot).1 hpart

end CommandBlocks.Graph
