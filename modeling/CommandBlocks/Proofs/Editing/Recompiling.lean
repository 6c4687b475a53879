import CommandBlocks.Proofs.Graph.Faults
import CommandBlocks.Proofs.Graph.Rules
import CommandBlocks.Proofs.Program.Contents

namespace CommandBlocks.Graph

variable {g h : Graph} {options : Options} {program : Program}

/-- Losing blocks and links, a graph keeps the shape that compiling needs. -/
theorem Shaped.of_fewer (hg : g.Shaped)
    (hlinks : ∀ k link, h.links.get? k = some link → g.links.get? k = some link)
    (hkinds : ∀ id block, h.blocks.get? id = some block →
      ∃ old, g.blocks.get? id = some old ∧ block.kind = old.kind) : h.Shaped := by
  have hruled := hg.ruled.of_fewer hlinks fun id block hget => .inl (hkinds id block hget)
  refine hruled.shaped fun id => ?_
  have hone := hg.oneNext id
  rw [length_outgoing] at hone ⊢
  exact ((Table.values_subperm_of_get? hlinks).countP_le _).trans hone

/-- A graph that has blocks of one that compiles, apart from their child counts, compiles if it has
    the right shape. Its statements are those of the first program without those of the blocks that
    are gone. -/
theorem exists_compile_recountWhere (hg : g.WellFormed) {blocks : Table BlockId Block}
    {links : Table LinkId Link} {counted : BlockId → Bool} {nextBlock : BlockId} {nextLink : LinkId}
    (hwell : WellFormed ⟨recountWhere blocks links counted, links, nextBlock, nextLink⟩)
    (hshaped : Shaped ⟨recountWhere blocks links counted, links, nextBlock, nextLink⟩)
    (gone : List BlockId) (hkeys : g.blocks.keys.Perm (gone ++ blocks.keys))
    (hkept : ∀ id block, blocks.get? id = some block → g.blocks.get? id = some block)
    (hcompile : g.compile options = .ok program) :
    ∃ after, compile ⟨recountWhere blocks links counted, links, nextBlock, nextLink⟩ options =
      .ok after ∧
      program.contents.map some =
        ↑(gone.map (g.content? options)) + Multiset.map some after.contents := by
  have hrecounted : g.blocks.keys.Perm (gone ++ (recountWhere blocks links counted).keys) := by
    rwa [recountWhere, Table.keys_map]
  refine exists_compile_of_content?_eq hg hwell hshaped gone hrecounted (fun id hid => ?_) hcompile
  obtain ⟨new, hnew⟩ := Table.contains_iff.1 hid
  obtain ⟨old, hold, hkind, hvalues, -⟩ := of_get?_recountWhere hnew
  exact content?_congr (hkept id old hold) hnew hkind hvalues

/-- With all blocks, it compiles to the same statements. -/
theorem exists_compile_recountWhere_self (hg : g.WellFormed)
    {links : Table LinkId Link} {counted : BlockId → Bool} {nextBlock : BlockId} {nextLink : LinkId}
    (hwell : WellFormed ⟨recountWhere g.blocks links counted, links, nextBlock, nextLink⟩)
    (hshaped : Shaped ⟨recountWhere g.blocks links counted, links, nextBlock, nextLink⟩)
    (hcompile : g.compile options = .ok program) :
    ∃ after, compile ⟨recountWhere g.blocks links counted, links, nextBlock, nextLink⟩ options =
      .ok after ∧ after.contents = program.contents := by
  obtain ⟨after, hafter, hcontents⟩ := exists_compile_recountWhere hg hwell hshaped []
    (.refl _) (fun _ _ hget => hget) hcompile
  rw [List.map_nil, Multiset.coe_nil, Multiset.zero_add] at hcontents
  exact ⟨after, hafter, (Multiset.map_injective (Option.some_injective _) hcontents).symm⟩

/-- Without one of its links, a graph that compiles still compiles, to a program that says the
    same. -/
theorem exists_compile_of_removeLink (hg : g.WellFormed)
    (hcompile : g.compile options = .ok program) {id : LinkId} {link : Link}
    (hremove : g.removeLink id = .ok (link, h)) :
    ∃ after, h.compile options = .ok after ∧ after.contents = program.contents := by
  have hh := hg.removeLink hremove
  have hshaped := (hg.exists_compile_iff.1 ⟨program, hcompile⟩).1
  obtain ⟨-, rfl⟩ := of_removeLink hremove
  refine exists_compile_recountWhere_self hg hh ?_ hcompile
  apply hshaped.of_fewer
  · intro k other hget
    exact (Table.get?_erase_eq_some.1 hget).2
  · intro other block hget
    obtain ⟨old, hold, hkind, -, -⟩ := of_get?_recountWhere hget
    exact ⟨old, hold, hkind⟩

/-- Without one of its blocks, a graph that compiles still compiles, and its program says the same
    but for that block. -/
theorem exists_compile_of_removeBlock (hg : g.WellFormed)
    (hcompile : g.compile options = .ok program) {id : BlockId} {block : Block}
    (hget : g.blocks.get? id = some block) (hremove : g.removeBlock id = .ok (block, h)) :
    ∃ fields after, block.fields options id = .ok fields ∧ h.compile options = .ok after ∧
      program.contents = (block.kind, fields) ::ₘ after.contents := by
  have hh := hg.removeBlock hremove
  have hshaped := (hg.exists_compile_iff.1 ⟨program, hcompile⟩).1
  obtain ⟨fields, hfields⟩ := hg.exists_fields_of_compile hcompile hget
  have hself : g.content? options id = some (block.kind, fields) :=
    content?_eq_some_iff.2 ⟨block, hget, hfields, rfl⟩
  obtain ⟨links, lost, rfl, hlinks, -⟩ := of_removeBlock hremove
  have hkept : ∀ other block, (g.blocks.erase id).get? other = some block →
      g.blocks.get? other = some block :=
    fun other block hold => (Table.get?_erase_eq_some.1 hold).2
  have hafter :
      Shaped ⟨recountWhere (g.blocks.erase id) links lost, links, g.nextBlock, g.nextLink⟩ := by
    apply hshaped.of_fewer
    · intro k link hlink
      exact ((hlinks k link).1 hlink).1
    · intro other new hnew
      obtain ⟨old, hold, hkind, -, -⟩ := of_get?_recountWhere hnew
      exact ⟨old, hkept other old hold, hkind⟩
  have hkeys := Table.perm_keys_erase (Table.contains_of_get? hget)
  obtain ⟨after, hcompiled, hcontents⟩ :=
    exists_compile_recountWhere hg hh hafter [id] hkeys hkept hcompile
  refine ⟨fields, after, hfields, hcompiled, ?_⟩
  rw [List.map_singleton, hself, Multiset.coe_singleton, Multiset.singleton_add,
    ← Multiset.map_cons] at hcontents
  exact Multiset.map_injective (Option.some_injective _) hcontents

/-- With another link under the rules, a graph that compiles still compiles to a program that says
    the same, unless the link is a second one to a next block, which is reported. -/
theorem exists_compile_of_addLink (hg : g.WellFormed)
    (hbelow : ∀ x ∈ g.links.entries, x.1.number < g.nextLink.number)
    (hcompile : g.compile options = .ok program) {link : Link} {id : LinkId}
    (hadd : g.addLink link = .ok (id, h)) :
    if link.handle = .next ∧ g.outgoing link.source .next ≠ [] then
      h.compile options = .error (.shape (.severalSuccessors link.source))
    else ∃ after, h.compile options = .ok after ∧ after.contents = program.contents := by
  have hfresh := Table.get?_eq_none_of_below hbelow
  have hshaped := (hg.exists_compile_iff.1 ⟨program, hcompile⟩).1
  obtain ⟨hfits, hdraw⟩ := addLink_eq_ok_iff.1 hadd
  obtain rfl : (g.drawLink link).2 = h := congrArg Prod.snd hdraw
  have hh := hg.drawLink hfresh hfits.source hfits.target
  have hruled := (ruled_drawLink_iff hg hfresh hfits.source hfits.target).2 ⟨hshaped.ruled, hfits⟩
  have hlength := length_outgoing_insert hfresh link (h := (g.drawLink link).2) rfl
  split_ifs with hsecond
  · obtain ⟨hnext, hearlier⟩ := hsecond
    rw [hh.compile_eq_shape_iff, hruled.shapeFault?_eq hh]
    have hseveral : (g.drawLink link).2.severalSuccessors? ≠ none := by
      intro hnone
      have hone := severalSuccessors?_eq_none_iff.1 hnone link.source
      have hpos := List.length_pos_iff.2 hearlier
      rw [hlength, if_pos ⟨rfl, hnext⟩] at hone
      omega
    obtain ⟨fault, hfault⟩ := Option.ne_none_iff_exists'.1 hseveral
    obtain ⟨source, rfl, hmany⟩ := two_le_of_severalSuccessors? hfault
    -- only the source of the new link has more links than before
    have hone := hshaped.oneNext source
    rw [hlength] at hmany
    obtain rfl : link.source = source := by
      by_contra hne
      rw [if_neg fun heq => hne heq.1] at hmany
      omega
    exact hfault
  · have hnext : ∀ source, ((g.drawLink link).2.outgoing source .next).length ≤ 1 := by
      intro source
      have hone := hshaped.oneNext source
      rw [hlength]
      split_ifs with hnew
      · obtain ⟨rfl, hhandle⟩ := hnew
        have hnone : g.outgoing link.source .next = [] := by
          by_contra hearlier
          exact hsecond ⟨hhandle, hearlier⟩
        rw [hnone, List.length_nil]
      · exact hone
    rw [drawLink_eq] at hh hnext hruled ⊢
    exact exists_compile_recountWhere_self hg hh (hruled.shaped hnext) hcompile

/-- A graph that compiles goes on compiling when it is edited. A link that the rules accept leaves
    what the statements say unchanged, unless its source is left with two links to next blocks,
    which are then reported; so does the removal of a link; and the removal of a block takes away
    that block's statement alone. -/
theorem compile_of_edited (hg : g.WellFormed)
    (hbelow : ∀ x ∈ g.links.entries, x.1.number < g.nextLink.number)
    (hcompile : g.compile options = .ok program) :
    (∀ link id h, g.addLink link = .ok (id, h) →
      if link.handle = .next ∧ g.outgoing link.source .next ≠ [] then
        h.compile options = .error (.shape (.severalSuccessors link.source))
      else ∃ after, h.compile options = .ok after ∧ after.contents = program.contents) ∧
    (∀ id link, g.links.get? id = some link → ∃ h after, g.removeLink id = .ok (link, h) ∧
      h.compile options = .ok after ∧ after.contents = program.contents) ∧
    ∀ id block, g.blocks.get? id = some block → ∃ h fields after,
      g.removeBlock id = .ok (block, h) ∧ block.fields options id = .ok fields ∧
        h.compile options = .ok after ∧
        program.contents = (block.kind, fields) ::ₘ after.contents := by
  refine ⟨fun link id h hadd => exists_compile_of_addLink hg hbelow hcompile hadd, ?_, ?_⟩
  · intro id link hget
    obtain ⟨h, hremove⟩ := exists_removeLink hget
    obtain ⟨after, hafter⟩ := exists_compile_of_removeLink hg hcompile hremove
    exact ⟨h, after, hremove, hafter⟩
  · intro id block hget
    obtain ⟨h, hremove⟩ := exists_removeBlock hget
    obtain ⟨fields, after, hafter⟩ := exists_compile_of_removeBlock hg hcompile hget hremove
    exact ⟨h, fields, after, hremove, hafter⟩

/-- A chain of two blocks under a condition, and a block beside it. -/
def guardedChain : Graph where
  blocks := .ofList [(⟨0⟩, ⟨.ifThen, .ofList [(.condition, .text "lit")], 1⟩),
    (⟨1⟩, { kind := .waitSeconds }), (⟨2⟩, { kind := .captureImage }),
    (⟨4⟩, { kind := .gpioWrite })]
  links := .ofList [(⟨0⟩, ⟨⟨1⟩, .next, ⟨2⟩⟩), (⟨3⟩, ⟨⟨0⟩, .child, ⟨1⟩⟩)]
  nextBlock := ⟨5⟩
  nextLink := ⟨4⟩

theorem compile_guardedChain : guardedChain.WellFormed ∧
    (∀ x ∈ guardedChain.links.entries, x.1.number < guardedChain.nextLink.number) ∧
    ∃ program, guardedChain.compile {} = .ok program ∧
      (∃ id h, guardedChain.addLink ⟨⟨1⟩, .next, ⟨4⟩⟩ = .ok (id, h) ∧
        h.compile {} = .error (.shape (.severalSuccessors ⟨1⟩))) ∧
      ∃ block h fields after, guardedChain.removeBlock ⟨1⟩ = .ok (block, h) ∧
        h.compile {} = .ok after ∧ program.contents = (block.kind, fields) ::ₘ after.contents := by
  have hg : guardedChain.WellFormed := ⟨by decide, by decide⟩
  have hbelow : ∀ x ∈ guardedChain.links.entries,
      x.1.number < guardedChain.nextLink.number := by decide
  have hcompile : guardedChain.compile {} = .ok [.mk .ifThen [(.condition, .text "lit")]
      (some [.mk .waitSeconds [] none, .mk .captureImage [] none]), .mk .gpioWrite [] none] := by
    cbv
  have hadd : guardedChain.addLink ⟨⟨1⟩, .next, ⟨4⟩⟩ =
      .ok (guardedChain.drawLink ⟨⟨1⟩, .next, ⟨4⟩⟩) := by cbv
  have hsecond : Handle.next = .next ∧ guardedChain.outgoing ⟨1⟩ .next ≠ [] :=
    ⟨rfl, by decide⟩
  have hblock : guardedChain.blocks.get? ⟨1⟩ = some { kind := .waitSeconds } := by rfl
  obtain ⟨hadded, -, hremoved⟩ := compile_of_edited hg hbelow hcompile
  obtain ⟨h, fields, after, hremove, -, hafter, hcontents⟩ := hremoved ⟨1⟩ _ hblock
  have herror := hadded _ _ _ hadd
  rw [if_pos hsecond] at herror
  exact ⟨hg, hbelow, _, hcompile, ⟨_, _, hadd, herror⟩, _, h, fields, after, hremove, hafter,
    hcontents⟩

end CommandBlocks.Graph
