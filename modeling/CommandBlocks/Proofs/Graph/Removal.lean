import CommandBlocks.Proofs.Graph.Operations
import CommandBlocks.Proofs.Results

namespace CommandBlocks.Graph

variable {g h : Graph} {id : BlockId} {block : Block} {ids : List BlockId}

/-- The number of links by which one block is nested in another. -/
def nestedLinks (g : Graph) (parent child : BlockId) : Nat :=
  g.links.values.countP fun link =>
    link.source = parent ∧ link.handle = .child ∧ link.target = child

/-- A block is what it was, apart from a number of nested blocks that it lost. -/
structure BlockLoses (old : Block) (lost : Nat) (new : Block) : Prop where
  kind : new.kind = old.kind
  values : new.values = old.values
  childCount : old.childCount = new.childCount + lost

/-- One graph is another one without a block and without the links that left it or ended at it. The
    other blocks lose as many nested blocks as links of their child handles are gone. -/
structure Loses (g : Graph) (gone : BlockId) (h : Graph) : Prop where
  self : h.blocks.get? gone = none
  others : ∀ id, id ≠ gone →
    Option.Rel (fun old new => BlockLoses old (g.nestedLinks id gone) new) (g.blocks.get? id)
      (h.blocks.get? id)
  links : ∀ k link, h.links.get? k = some link ↔
    g.links.get? k = some link ∧ link.source ≠ gone ∧ link.target ≠ gone
  nextBlock : h.nextBlock = g.nextBlock
  nextLink : h.nextLink = g.nextLink

/-- The graph without some blocks and the links at them. -/
def without (g : Graph) (gone : List BlockId) : Graph :=
  let links := g.links.filter fun _ link =>
    !gone.contains link.source && !gone.contains link.target
  { g with
    blocks := recountWhere (g.blocks.filter fun id _ => !gone.contains id) links fun _ => true
    links }

/-- Removes blocks one after the other. -/
def removeBlocks (g : Graph) (ids : List BlockId) : Except GraphFault Graph :=
  ids.foldlM (fun g id => (g.removeBlock id).map (·.2)) g

/-- Only a block that is not there cannot be removed. -/
theorem removeBlock_eq_error_iff {fault : GraphFault} :
    g.removeBlock id = .error fault ↔ g.blocks.contains id = false ∧ fault = .noBlock id := by
  rw [removeBlock, Table.contains]
  cases g.blocks.get? id with
  | none => simp [eq_comm]
  | some block => simp

section Without

/-- Without some blocks, a graph has the links between its other blocks. -/
theorem links_without {gone : List BlockId} {k : LinkId} {link : Link} :
    (g.without gone).links.get? k = some link ↔
      g.links.get? k = some link ∧ link.source ∉ gone ∧ link.target ∉ gone := by
  simp [without, Table.get?_filter_eq_some]

theorem blocks_without (g : Graph) (gone : List BlockId) :
    (g.without gone).blocks = recountWhere (g.blocks.filter fun id _ => !gone.contains id)
      (g.without gone).links fun _ => true := rfl

/-- Without some blocks, the links of a graph are listed as before, apart from those at these
    blocks. -/
theorem values_without (g : Graph) (gone : List BlockId) :
    (g.without gone).links.values =
      g.links.values.filter fun link =>
        !gone.contains link.source && !gone.contains link.target := by
  rw [without, Table.values, Table.filter, Table.values, List.filter_map]
  rfl

theorem contains_without {gone : List BlockId} :
    (g.without gone).blocks.contains id = true ↔ g.blocks.contains id = true ∧ id ∉ gone := by
  rw [without, contains_recountWhere, Table.contains_iff, Table.contains_iff]
  simp [Table.get?_filter_eq_some]

/-- Blocks can be taken away before or after counting. -/
private theorem filter_recountWhere (blocks : Table BlockId Block) (links : Table LinkId Link)
    (p q : BlockId → Bool) :
    (recountWhere blocks links p).filter (fun id _ => q id) =
      recountWhere (blocks.filter fun id _ => q id) links p := by
  apply Table.eq_of_get?
  intro id
  rw [Table.get?_filter, get?_recountWhere, get?_recountWhere, Table.get?_filter,
    Option.filter_map]
  rfl

/-- The blocks that stay are counted again after the last removal, so the earlier countings do not
    matter. -/
theorem without_without (g : Graph) (gone more : List BlockId) :
    (g.without gone).without more = g.without (gone ++ more) := by
  have hlinks : ((g.without gone).without more).links = (g.without (gone ++ more)).links := by
    apply Table.eq_of_get?
    intro k
    ext link
    simp only [links_without, List.mem_append]
    tauto
  have hstay : (g.blocks.filter fun id _ => !gone.contains id).filter
      (fun id _ => !more.contains id) =
        g.blocks.filter fun id _ => !(gone ++ more).contains id := by
    apply Table.eq_of_get?
    intro id
    ext block
    simp [Table.get?_filter_eq_some, and_assoc]
  have hblocks : ((g.without gone).without more).blocks = (g.without (gone ++ more)).blocks := by
    rw [blocks_without, blocks_without, filter_recountWhere, recountWhere_recountWhere, hstay,
      hlinks, ← blocks_without]
  calc (g.without gone).without more
    _ = ⟨((g.without gone).without more).blocks, ((g.without gone).without more).links,
        g.nextBlock, g.nextLink⟩ := rfl
    _ = ⟨(g.without (gone ++ more)).blocks, (g.without (gone ++ more)).links,
        g.nextBlock, g.nextLink⟩ := by rw [hblocks, hlinks]
    _ = g.without (gone ++ more) := rfl

/-- The order of the blocks that are taken away does not matter. -/
theorem without_perm (g : Graph) {others : List BlockId} (hperm : ids.Perm others) :
    g.without ids = g.without others := by
  simp only [without, hperm.contains_eq]

end Without

/-- In a well-formed graph the links at a block tell which child counts change, so removing it
    leaves the graph without it. -/
theorem WellFormed.removeBlock_eq (hg : g.WellFormed) (hget : g.blocks.get? id = some block) :
    g.removeBlock id = .ok (block, g.without [id]) := by
  obtain ⟨h, hremove⟩ := exists_removeBlock hget
  have hcounted := (hg.removeBlock hremove).recount_eq
  obtain ⟨links, lost, rfl, hlinks, -⟩ := of_removeBlock hremove
  rw [hremove, ← hcounted, recount, recountWhere_recountWhere]
  have hkept : links = (g.without [id]).links := by
    apply Table.eq_of_get?
    intro k
    ext link
    rw [hlinks, links_without, List.mem_singleton, List.mem_singleton]
  have herase : g.blocks.erase id = g.blocks.filter fun other _ => !List.contains [id] other := by
    apply Table.eq_of_get?
    intro other
    ext block
    simp [Table.get?_erase_eq_some, Table.get?_filter_eq_some, and_comm]
  rw [herase, hkept]
  rfl

/-- The links of a block's child handle are those that stay and those that nest the removed one. -/
theorem nestedIn_eq_add_nestedLinks {parent gone : BlockId} (hparent : parent ≠ gone) :
    nestedIn g.links parent =
      nestedIn (g.without [gone]).links parent + g.nestedLinks parent gone := by
  let stays (link : Link) : Bool :=
    !List.contains [gone] link.source && !List.contains [gone] link.target
  have hstay : nestedIn (g.without [gone]).links parent = (g.links.values.filter stays).countP
      fun link => link.source = parent ∧ link.handle = .child := by
    rw [nestedIn, values_without]
  have hlost : g.nestedLinks parent gone = (g.links.values.filter fun link => !stays link).countP
      fun link => link.source = parent ∧ link.handle = .child := by
    rw [nestedLinks, List.countP_filter]
    apply List.countP_congr
    intro link _
    -- a link that leaves another block can only be lost for its target
    grind
  rw [hstay, hlost, nestedIn]
  exact List.countP_eq_countP_filter_add _ _ stays

/-- Without one of its blocks, a graph loses that block, the links at it and nothing else. -/
theorem loses_without (hg : g.WellFormed) (id : BlockId) : g.Loses id (g.without [id]) where
  self := by
    rw [Table.get?_eq_none_iff, contains_without]
    simp
  others other hother := by
    rw [blocks_without, get?_recountWhere, Table.get?_filter]
    cases hget : g.blocks.get? other with
    | none => exact .none
    | some old =>
      have hstays : (some old).filter (fun _ => !List.contains [id] other) = some old := by
        simp [hother]
      rw [hstays]
      refine .some ⟨rfl, rfl, ?_⟩
      rw [hg.childCount_eq hget]
      exact nestedIn_eq_add_nestedLinks hother
  links k link := by
    rw [links_without, List.mem_singleton, List.mem_singleton]
  nextBlock := rfl
  nextLink := rfl

theorem WellFormed.without_nil (hg : g.WellFormed) : g.without [] = g := by
  have hlinks : (g.without []).links = g.links := by
    apply Table.eq_of_get?
    intro k
    ext link
    simp [links_without]
  have hblocks : (g.blocks.filter fun id _ => !([] : List BlockId).contains id) = g.blocks := by
    apply Table.eq_of_get?
    intro id
    ext block
    simp [Table.get?_filter_eq_some]
  calc g.without []
    _ = ⟨recountWhere (g.blocks.filter fun id _ => !([] : List BlockId).contains id)
        (g.without []).links fun _ => true, (g.without []).links, g.nextBlock, g.nextLink⟩ := rfl
    _ = g.recount := by rw [hblocks, hlinks]; rfl
    _ = g := hg.recount_eq

/-- Removing some blocks one after the other takes them all away. -/
theorem WellFormed.removeBlocks_eq (hg : g.WellFormed) (hnodup : ids.Nodup)
    (hpresent : ∀ id ∈ ids, g.blocks.contains id = true) :
    g.removeBlocks ids = .ok (g.without ids) := by
  induction ids generalizing g with
  | nil =>
    rw [hg.without_nil]
    rfl
  | cons id ids ih =>
    rw [List.nodup_cons] at hnodup
    obtain ⟨hself, hrest⟩ := List.forall_mem_cons.1 hpresent
    obtain ⟨block, hget⟩ := Table.contains_iff.1 hself
    have hremove := hg.removeBlock_eq hget
    have hleft : ∀ other ∈ ids, (g.without [id]).blocks.contains other = true := by
      intro other hother
      refine contains_without.2 ⟨hrest other hother, ?_⟩
      rw [List.mem_singleton]
      rintro rfl
      exact hnodup.1 hother
    rw [removeBlocks, List.foldlM_cons, hremove]
    exact (ih (hg.removeBlock hremove) hnodup.2 hleft).trans (by rw [without_without]; rfl)

/-- Removing a block fails for an unknown block only. Otherwise the block is given back as it was,
    and gone are that block and the links at it, while the child counts of the other blocks go down
    by the links that nested it. Several blocks are removed with the same result in any order. -/
theorem removeBlock_loses (hg : g.WellFormed) :
    (∀ id fault, g.removeBlock id = .error fault ↔
      g.blocks.contains id = false ∧ fault = .noBlock id) ∧
    (∀ id block, g.blocks.get? id = some block → ∃ h, g.removeBlock id = .ok (block, h) ∧
      g.Loses id h) ∧
    ∀ ids : List BlockId, ids.Nodup → (∀ id ∈ ids, g.blocks.contains id = true) → ∃ h,
      ∀ others, ids.Perm others → g.removeBlocks others = .ok h := by
  refine ⟨fun _ _ => removeBlock_eq_error_iff, fun id block hget => ?_,
    fun ids hnodup hpresent => ?_⟩
  · exact ⟨_, hg.removeBlock_eq hget, loses_without hg id⟩
  · refine ⟨g.without ids, fun others hperm => ?_⟩
    have hothers : ∀ id ∈ others, g.blocks.contains id = true :=
      fun id hid => hpresent id (hperm.mem_iff.2 hid)
    rw [hg.removeBlocks_eq (hperm.nodup_iff.1 hnodup) hothers, g.without_perm hperm]

/-- A loop that holds another loop twice and a pause once. The inner loop is nested in itself and
    followed by the pause, after which the outer loop runs again. -/
def knottedLoops : Graph where
  blocks := .ofList [(⟨0⟩, ⟨.repeatTimes, .ofList [(.count, .text "2")], 3⟩),
    (⟨1⟩, ⟨.repeatTimes, .ofList [(.count, .text "7")], 1⟩), (⟨2⟩, { kind := .waitSeconds })]
  links := .ofList [(⟨0⟩, ⟨⟨0⟩, .child, ⟨1⟩⟩), (⟨1⟩, ⟨⟨1⟩, .child, ⟨1⟩⟩), (⟨3⟩, ⟨⟨0⟩, .child, ⟨1⟩⟩),
    (⟨4⟩, ⟨⟨0⟩, .child, ⟨2⟩⟩), (⟨5⟩, ⟨⟨1⟩, .next, ⟨2⟩⟩), (⟨6⟩, ⟨⟨2⟩, .next, ⟨0⟩⟩)]
  nextBlock := ⟨3⟩
  nextLink := ⟨7⟩

theorem removeBlock_loses_knottedLoops : knottedLoops.WellFormed ∧
    (∃ h, knottedLoops.removeBlock ⟨1⟩ =
        .ok (⟨.repeatTimes, .ofList [(.count, .text "7")], 1⟩, h) ∧ knottedLoops.Loses ⟨1⟩ h) ∧
    ∃ h, knottedLoops.removeBlocks [⟨1⟩, ⟨2⟩] = .ok h ∧
      knottedLoops.removeBlocks [⟨2⟩, ⟨1⟩] = .ok h := by
  have hg : knottedLoops.WellFormed := ⟨by decide, by decide⟩
  have hget : knottedLoops.blocks.get? ⟨1⟩ =
      some ⟨.repeatTimes, .ofList [(.count, .text "7")], 1⟩ := by rfl
  obtain ⟨-, hremove, hseveral⟩ := removeBlock_loses hg
  obtain ⟨h, hsame⟩ := hseveral [⟨1⟩, ⟨2⟩] (by decide) (by decide)
  exact ⟨hg, hremove _ _ hget, h, hsame _ (.refl _), hsame _ (.swap _ _ _)⟩

end CommandBlocks.Graph
