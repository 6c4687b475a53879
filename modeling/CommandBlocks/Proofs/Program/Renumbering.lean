import CommandBlocks.Proofs.Graph.Renumbering
import CommandBlocks.Proofs.Program.Assembly
import CommandBlocks.Proofs.Program.Fields

namespace CommandBlocks

/-- Naming the faults of parts anew names the fault of the whole anew. -/
private theorem concatenated_mapError (rename : BlockId → BlockId)
    (parts : List (Except InputFault Program)) :
    concatenated (parts.map (·.mapError (·.rename rename))) =
      (concatenated parts).mapError (·.rename rename) := by
  induction parts with
  | nil => rfl
  | cons part parts ih =>
    simp only [List.map_cons, concatenated, ih, mapError_bind]
    rfl

private theorem InputFault.rename_inj {rename : BlockId → BlockId}
    (hrename : Function.Injective rename) {fault fault' : InputFault} :
    fault.rename rename = fault'.rename rename ↔ fault = fault' := by
  cases fault <;> cases fault' <;> simp [InputFault.rename, hrename.eq_iff]

/-- Only the name of its block matters to a fault. -/
private theorem InputFault.rename_congr {rename rename' : BlockId → BlockId} {fault : InputFault}
    (heq : rename fault.block = rename' fault.block) :
    fault.rename rename = fault.rename rename' := by
  cases fault with
  | missing id parameter => exact congrArg (missing · parameter) heq
  | noNumber id parameter found => exact congrArg (noNumber · parameter found) heq

namespace Graph

variable {g h : Graph} {options : Options}

namespace Permuted

variable {block : Equiv.Perm BlockId} {link : Equiv.Perm LinkId}

/-- The chain of a block says the same under other identifiers. Only a fault tells them apart. -/
theorem chain_eq (hp : Permuted block link g h) (hg : g.WellFormed) (hshaped : g.Shaped)
    (hacyclic : h.Acyclic) {id : BlockId} (hid : g.blocks.contains id = true) :
    h.chain options hacyclic (block id) =
      (g.chain options hshaped.acyclic id).mapError (·.rename block) := by
  induction id using hshaped.acyclic.wellFounded_swap_leads.induction with
  | _ id ih =>
    obtain ⟨old, hold⟩ := Table.contains_iff.1 hid
    obtain ⟨new, hnew, hkind, hvalues⟩ := hp.exists_get? hold
    have hfollowers : ∀ ids : List BlockId, ids ⊆ g.followers id →
        concatenated ((ids.map block).map (h.chain options hacyclic)) =
          (concatenated (ids.map (g.chain options hshaped.acyclic))).mapError
            (·.rename block) := by
      intro ids hids
      rw [← concatenated_mapError, List.map_map, List.map_map]
      congr 1
      refine List.map_congr_left fun next hnext => ?_
      have hleads := leads_of_mem_followers (hids hnext)
      exact ih next hleads (hg.contains_of_leads hleads).2
    have hbody := hfollowers _ (List.subset_append_left _ _)
    have hrest := hfollowers _ (List.subset_append_right _ _)
    rw [Graph.chain_eq options hacyclic hnew, Graph.chain_eq options hshaped.acyclic hold,
      hp.children_eq, hp.successor?_eq (hshaped.oneNext id), Option.toList_map, hbody, hrest,
      hkind, Block.fields_rename block hkind (Block.entered?_congr hvalues)]
    simp only [mapError_bind]
    rfl

/-- Under other identifiers a graph is read as the same program, or with the same fault. -/
theorem reading_eq (hp : Permuted block link g h) (hg : g.WellFormed) (hshaped : g.Shaped)
    (hacyclic : h.Acyclic) :
    h.reading options hacyclic =
      (g.reading options hshaped.acyclic).mapError (·.rename block) := by
  rw [reading, reading, hp.roots_eq, List.map_map, ← concatenated_mapError, List.map_map]
  congr 1
  exact List.map_congr_left fun root hroot =>
    hp.chain_eq hg hshaped hacyclic (mem_roots.1 hroot).1

end Permuted

/-- Graphs that are the same but for identifiers compile alike: to the same program, with the same
    fault in the values of a block, or both with a fault of the shape. -/
theorem compile_of_renumbered {block : BlockId → BlockId} {link : LinkId → LinkId}
    (hg : g.WellFormed) (hh : h.WellFormed) (hrenumbered : Renumbered block link g h)
    (options : Options) :
    (∀ program, g.compile options = .ok program ↔ h.compile options = .ok program) ∧
    (∀ fault : InputFault, g.blocks.contains fault.block = true →
      (g.compile options = .error (.input fault) ↔
        h.compile options = .error (.input (fault.rename block)))) ∧
    ((∃ fault, g.compile options = .error (.shape fault)) ↔
      ∃ fault, h.compile options = .error (.shape fault)) := by
  obtain ⟨block', link', hp, hblock⟩ := hrenumbered.exists_permuted hg
  by_cases hshaped : g.Shaped
  · have hshaped' := hp.shaped hshaped
    have hcompile := compile_of_shaped hg hshaped options
    have hcompile' := compile_of_shaped hh hshaped' options
    rw [hp.reading_eq hg hshaped] at hcompile'
    cases hreading : g.reading options hshaped.acyclic with
    | ok program =>
      rw [hreading] at hcompile hcompile'
      rw [hcompile, hcompile']
      exact ⟨fun _ => Iff.rfl, fun _ _ => ⟨nofun, nofun⟩, ⟨nofun, nofun⟩⟩
    | error found =>
      rw [hreading] at hcompile hcompile'
      rw [hcompile, hcompile']
      refine ⟨fun _ => ⟨nofun, nofun⟩, fun fault hfault => ?_, ⟨nofun, nofun⟩⟩
      rw [← InputFault.rename_congr (hblock _ hfault)]
      simp only [Except.mapError, Except.error.injEq, CompileFault.input.injEq,
        InputFault.rename_inj block'.injective]
  · have hshaped' : ¬ h.Shaped := mt hp.symm.shaped hshaped
    obtain ⟨fault, hfault⟩ := (hg.exists_compile_eq_shape_iff options).2 hshaped
    obtain ⟨fault', hfault'⟩ := (hh.exists_compile_eq_shape_iff options).2 hshaped'
    rw [hfault, hfault']
    exact ⟨by simp, by simp, by simp⟩

/-- A condition over two blocks, the second with one after it, and a block beside it. -/
def branch : Graph where
  blocks := .ofList [(⟨0⟩, ⟨.ifElse, .ofList [(.condition, .text "lit")], 2⟩),
    (⟨1⟩, { kind := .waitSeconds }), (⟨2⟩, { kind := .gpioWrite }),
    (⟨3⟩, { kind := .captureImage }), (⟨4⟩, { kind := .waitSeconds })]
  links := .ofList [(⟨0⟩, ⟨⟨0⟩, .child, ⟨3⟩⟩), (⟨1⟩, ⟨⟨1⟩, .next, ⟨4⟩⟩),
    (⟨2⟩, ⟨⟨0⟩, .child, ⟨1⟩⟩)]
  nextBlock := ⟨5⟩
  nextLink := ⟨3⟩

/-- The same blocks and links created in another order, as far as that makes no difference. -/
def branchRenumbered : Graph where
  blocks := .ofList [(⟨0⟩, { kind := .waitSeconds }),
    (⟨1⟩, ⟨.ifElse, .ofList [(.condition, .text "lit")], 2⟩), (⟨2⟩, { kind := .captureImage }),
    (⟨3⟩, { kind := .gpioWrite }), (⟨5⟩, { kind := .waitSeconds })]
  links := .ofList [(⟨0⟩, ⟨⟨0⟩, .next, ⟨5⟩⟩), (⟨1⟩, ⟨⟨1⟩, .child, ⟨2⟩⟩),
    (⟨3⟩, ⟨⟨1⟩, .child, ⟨0⟩⟩)]
  nextBlock := ⟨6⟩
  nextLink := ⟨4⟩

/-- Exchanges each even number with the odd number after it. -/
def paired {named : Named} (id : Id named) : Id named := ⟨id.number ^^^ 1⟩

private theorem bijOn_paired {α : Type} {named : Named} {s t : Table (Id named) α}
    (hs : ∀ id ∈ s.keys, paired id ∈ t.keys) (ht : ∀ id ∈ t.keys, paired id ∈ s.keys) :
    Set.BijOn paired {id | s.contains id = true} {id | t.contains id = true} := by
  have hpaired : ∀ id : Id named, paired (paired id) = id := by
    intro id
    apply Id.number_inj
    rw [paired, paired, UInt64.xor_assoc, UInt64.xor_self, UInt64.xor_zero]
  refine Set.InvOn.bijOn ⟨fun id _ => hpaired id, fun id _ => hpaired id⟩ ?_ ?_
  · exact fun id hid => Table.mem_keys.1 (hs id (Table.mem_keys.2 hid))
  · exact fun id hid => Table.mem_keys.1 (ht id (Table.mem_keys.2 hid))

private theorem renumbered_branch :
    Renumbered paired paired branch branchRenumbered where
  blocks := bijOn_paired (by decide) (by decide)
  links := bijOn_paired (by decide) (by decide)
  kept id old hget := by
    have hsame : ∀ x ∈ branch.blocks.entries,
        (branchRenumbered.blocks.get? (paired x.1)).map (fun new => (new.kind, new.values)) =
          some (x.2.kind, x.2.values) := by decide
    obtain ⟨new, hnew, heq⟩ := Option.map_eq_some_iff.1 (hsame _ (Table.mem_entries_iff.2 hget))
    exact ⟨new, hnew, congrArg Prod.fst heq, congrArg Prod.snd heq⟩
  joined id old hget := by
    have hsame : ∀ x ∈ branch.links.entries, branchRenumbered.links.get? (paired x.1) =
        some ⟨paired x.2.source, x.2.handle, paired x.2.target⟩ := by decide
    exact hsame _ (Table.mem_entries_iff.2 hget)
  roots := by decide
  children i j first second hfirst hsecond := by
    have hkept : ∀ x ∈ branch.links.entries, ∀ y ∈ branch.links.entries,
        x.2.source = y.2.source → x.2.handle = .child → y.2.handle = .child →
          x.1.number < y.1.number → (paired x.1).number < (paired y.1).number := by decide
    exact hkept _ (Table.mem_entries_iff.2 hfirst) _ (Table.mem_entries_iff.2 hsecond)

theorem compile_branchRenumbered : branch.WellFormed ∧ branchRenumbered.WellFormed ∧
    Renumbered paired paired branch branchRenumbered ∧
    branchRenumbered.compile {} = .ok [.mk .ifElse [(.condition, .text "lit")]
      (some [.mk .captureImage [] none, .mk .waitSeconds [] none, .mk .waitSeconds [] none]),
      .mk .gpioWrite [] none] ∧
    branchRenumbered.compile { requireInputs := true } =
      .error (.input (.missing ⟨0⟩ .duration)) := by
  have hg : branch.WellFormed := ⟨by decide, by decide⟩
  have hh : branchRenumbered.WellFormed := ⟨by decide, by decide⟩
  obtain ⟨hok, -, -⟩ := compile_of_renumbered hg hh renumbered_branch {}
  obtain ⟨-, hinput, -⟩ := compile_of_renumbered hg hh renumbered_branch { requireInputs := true }
  refine ⟨hg, hh, renumbered_branch, (hok _).1 (by cbv), ?_⟩
  exact (hinput (.missing ⟨1⟩ .duration) (by decide)).1 (by cbv)

end Graph

end CommandBlocks
