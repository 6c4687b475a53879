import CommandBlocks.Proofs.Graph.Operations
import Mathlib.Algebra.Group.Nat.Defs

namespace CommandBlocks

theorem Id.number_lt_iff {named : Named} {i j : Id named} :
    i.number < j.number ↔ i.number.toNat < j.number.toNat := UInt64.lt_iff_toNat_lt

/-- The next identifier has the next number, unless the numbers are used up. -/
theorem Id.toNat_next {named : Named} {i : Id named} (hroom : i.number.toNat + 1 < 2 ^ 64) :
    i.next.number.toNat = i.number.toNat + 1 := by
  rw [Id.next, UInt64.toNat_add, UInt64.toNat_one, Nat.mod_eq_of_lt hroom]

/-- A table has no more entries than there are numbers below those of its keys. -/
theorem Table.size_le_of_below {named : Named} {α : Type} {table : Table (Id named) α}
    {bound : Nat} (hbelow : ∀ i, table.contains i = true → i.number.toNat < bound) :
    table.size ≤ bound := by
  have hnodup : (table.keys.map fun i => i.number.toNat).Nodup := by
    refine table.nodup_keys.map fun i j heq => ?_
    exact Id.number_inj (UInt64.toNat_inj.1 heq)
  have hrange : (table.keys.map fun i => i.number.toNat) ⊆ List.range bound := by
    intro n hn
    obtain ⟨i, hi, rfl⟩ := List.mem_map.1 hn
    exact List.mem_range.2 (hbelow i (Table.mem_keys.1 hi))
  have hle := (hnodup.subperm hrange).length_le
  rwa [List.length_map, Table.keys, List.length_map, List.length_range] at hle

/-- A counter that moves on stays above the identifiers in use, the one it handed out among them. -/
theorem lt_next_of_contains_insert {named : Named} {α : Type} {table : Table (Id named) α}
    {next : Id named} {a : α} (hroom : next.number.toNat + 1 < 2 ^ 64)
    (hbelow : ∀ i, table.contains i = true → i.number < next.number) :
    ∀ i, (table.insert next a).contains i = true → i.number < next.next.number := by
  intro i hi
  rw [Id.number_lt_iff, Id.toNat_next hroom]
  obtain rfl | hold := Table.contains_insert.1 hi
  · omega
  · have hlt := Id.number_lt_iff.1 (hbelow i hold)
    omega

namespace Graph

variable {g h : Graph}

/-- Links and child counts fit the blocks, values fit the kinds of their blocks, and both counters
    are above the identifiers in use. -/
structure Sound (g : Graph) : Prop extends WellFormed g where
  declared : ∀ id block, g.blocks.get? id = some block → block.Declared
  blockBelow : ∀ id, g.blocks.contains id = true → id.number < g.nextBlock.number
  linkBelow : ∀ id, g.links.contains id = true → id.number < g.nextLink.number

theorem sound_empty : (∅ : Graph).Sound where
  ends x hx := by cases hx
  counts x hx := by cases hx
  declared id block hget := by cases hget
  blockBelow id hid := by cases hid
  linkBelow id hid := by cases hid

/-- Apart from being well formed, whether a graph is sound does not depend on its child counts. -/
theorem sound_recountWhere {blocks : Table BlockId Block} {links : Table LinkId Link}
    {p : BlockId → Bool} {nextBlock : BlockId} {nextLink : LinkId}
    (hwell : WellFormed ⟨recountWhere blocks links p, links, nextBlock, nextLink⟩)
    (hdeclared : ∀ id block, blocks.get? id = some block → block.Declared)
    (hblocks : ∀ id, blocks.contains id = true → id.number < nextBlock.number)
    (hlinks : ∀ k, links.contains k = true → k.number < nextLink.number) :
    Sound ⟨recountWhere blocks links p, links, nextBlock, nextLink⟩ := by
  refine ⟨hwell, ?_, ?_, hlinks⟩
  · intro id block hget parameter value hvalue
    obtain ⟨old, hold, hkind, hvalues, -⟩ := of_get?_recountWhere hget
    rw [hvalues] at hvalue
    rw [hkind]
    exact hdeclared id old hold parameter value hvalue
  · intro id hid
    rw [contains_recountWhere] at hid
    exact hblocks id hid

namespace Sound

/-- The identifier for the next block is not in use. -/
theorem get?_nextBlock (hg : g.Sound) : g.blocks.get? g.nextBlock = none := by
  rw [Table.get?_eq_none_iff]
  intro hmem
  exact absurd (hg.blockBelow _ hmem) (UInt64.lt_irrefl _)

theorem get?_nextLink (hg : g.Sound) : g.links.get? g.nextLink = none := by
  rw [Table.get?_eq_none_iff]
  intro hmem
  exact absurd (hg.linkBelow _ hmem) (UInt64.lt_irrefl _)

/-- No link leaves or reaches a block that is not there yet. -/
theorem nestedIn_nextBlock (hg : g.Sound) : nestedIn g.links g.nextBlock = 0 := by
  apply nestedIn_eq_zero
  intro k link hget hsource
  have hcontains := hg.contains_source hget
  rw [hsource, Table.contains, hg.get?_nextBlock] at hcontains
  cases hcontains

/-- With another block a graph is sound, unless the counter overflows. -/
theorem addBlock (hg : g.Sound) (hroom : g.nextBlock.number.toNat + 1 < 2 ^ 64) (kind : Kind) :
    (g.addBlock kind).2.Sound := by
  have hblocks : (g.addBlock kind).2.blocks = g.blocks.insert g.nextBlock { kind } := rfl
  have hlinks : (g.addBlock kind).2.links = g.links := rfl
  have hwell : (g.addBlock kind).2.WellFormed := by
    apply wellFormed_of_get?
    · intro k link hget
      rw [hblocks, Table.contains_insert, Table.contains_insert]
      exact ⟨.inr (hg.contains_source hget), .inr (hg.contains_target hget)⟩
    · intro id block hget
      obtain ⟨rfl, rfl⟩ | ⟨-, hold⟩ := Table.get?_insert_eq_some.1 hget
      · rw [hlinks, hg.nestedIn_nextBlock]
      · exact hg.childCount_eq hold
  refine ⟨hwell, ?_, ?_, hg.linkBelow⟩
  · intro id block hget
    obtain ⟨rfl, rfl⟩ | ⟨-, hold⟩ := Table.get?_insert_eq_some.1 hget
    · intro parameter value hvalue
      cases hvalue
    · exact hg.declared id block hold
  · exact lt_next_of_contains_insert hroom hg.blockBelow

/-- Without one of its blocks a graph is sound. -/
theorem removeBlock (hg : g.Sound) {id : BlockId} {block : Block}
    (hremove : g.removeBlock id = .ok (block, h)) : h.Sound := by
  have hwell := hg.toWellFormed.removeBlock hremove
  obtain ⟨links, lost, rfl, hlinks, -⟩ := of_removeBlock hremove
  have hstays : ∀ other block, (g.blocks.erase id).get? other = some block →
      g.blocks.get? other = some block := by
    intro other block hother
    exact (Table.get?_erase_eq_some.1 hother).2
  apply sound_recountWhere hwell
  · intro other block hother
    exact hg.declared other block (hstays other block hother)
  · intro other hother
    obtain ⟨block, hget⟩ := Table.contains_iff.1 hother
    exact hg.blockBelow other (Table.contains_of_get? (hstays other block hget))
  · intro k hlink
    obtain ⟨link, hnew⟩ := Table.contains_iff.1 hlink
    exact hg.linkBelow k (Table.contains_of_get? ((hlinks k link).1 hnew).1)

/-- With another link between its blocks a graph is sound, unless the counter overflows. -/
theorem drawLink (hg : g.Sound) (hroom : g.nextLink.number.toNat + 1 < 2 ^ 64) {link : Link}
    (hsource : g.blocks.contains link.source = true)
    (htarget : g.blocks.contains link.target = true) : (g.drawLink link).2.Sound := by
  have hwell := hg.toWellFormed.drawLink hg.get?_nextLink hsource htarget
  rw [drawLink_eq] at hwell ⊢
  exact sound_recountWhere hwell hg.declared hg.blockBelow
    (lt_next_of_contains_insert hroom hg.linkBelow)

theorem removeLink (hg : g.Sound) {id : LinkId} {link : Link}
    (hremove : g.removeLink id = .ok (link, h)) : h.Sound := by
  have hwell := hg.toWellFormed.removeLink hremove
  obtain ⟨-, rfl⟩ := of_removeLink hremove
  apply sound_recountWhere hwell hg.declared hg.blockBelow
  intro k hk
  obtain ⟨other, hget⟩ := Table.contains_iff.1 hk
  exact hg.linkBelow k (Table.contains_of_get? (Table.get?_erase_eq_some.1 hget).2)

/-- Only the values of one block change, and only to declared ones. -/
theorem revalues (hg : g.Sound) (hvalues : g.Revalues h) : h.Sound := by
  have hcontains := hvalues.contains_eq
  obtain ⟨id, block, values, hget, hdeclared, rfl⟩ := hvalues
  refine ⟨wellFormed_of_get? ?_ ?_, ?_, ?_, hg.linkBelow⟩
  · intro k link hlink
    rw [hcontains, hcontains]
    exact ⟨hg.contains_source hlink, hg.contains_target hlink⟩
  · intro other found hother
    obtain ⟨rfl, rfl⟩ | ⟨-, hold⟩ := Table.get?_insert_eq_some.1 hother
    · have hcount := hg.childCount_eq hget
      exact hcount
    · exact hg.childCount_eq hold
  · intro other found hother
    obtain ⟨rfl, rfl⟩ | ⟨-, hold⟩ := Table.get?_insert_eq_some.1 hother
    · exact hdeclared (hg.declared other block hget)
    · exact hg.declared other found hold
  · intro other hother
    rw [hcontains] at hother
    exact hg.blockBelow other hother

end Sound

end Graph

end CommandBlocks
