import CommandBlocks.Proofs.Graph.Connecting
import CommandBlocks.Proofs.Graph.Operations
import CommandBlocks.Proofs.Graph.Shape

namespace CommandBlocks

open Relation

theorem Capacity.holds_zero (capacity : Capacity) : capacity.Holds 0 := by
  cases capacity with
  | closed => rfl
  | atMost limit => exact Nat.zero_le limit
  | unbounded => trivial

namespace Graph

variable {g h : Graph} {link : Link}

/-- At most one link ends at each block, no block holds more blocks than its kind allows, and there
    is no cycle. -/
structure Ruled (g : Graph) : Prop where
  oneParent : ∀ id, (g.incoming id).length ≤ 1
  capacity : ∀ id block, g.blocks.get? id = some block →
    block.kind.capacity.Holds (g.outgoing id .child).length
  acyclic : g.Acyclic

/-- A graph without links keeps the rules. -/
theorem ruled_of_links_eq_empty (hlinks : g.links = ∅) : g.Ruled where
  oneParent id := by
    rw [length_incoming, hlinks]
    exact Nat.zero_le 1
  capacity id block _ := by
    rw [← nestedIn_eq_length, hlinks]
    exact block.kind.capacity.holds_zero
  acyclic id hcycle := by
    obtain ⟨_, hfirst, -⟩ := TransGen.head'_iff.1 hcycle
    obtain ⟨k, link, hget, -, -⟩ := hfirst
    rw [hlinks] at hget
    cases hget

theorem ruled_empty : (∅ : Graph).Ruled := ruled_of_links_eq_empty rfl

namespace Ruled

/-- Losing links, naming them anew and exchanging values breaks no rule. -/
theorem of_subperm (hg : g.Ruled) (hlinks : h.links.values.Subperm g.links.values)
    (hkinds : ∀ id block, h.blocks.get? id = some block →
      (∃ old, g.blocks.get? id = some old ∧ block.kind = old.kind) ∨ nestedIn h.links id = 0) :
    h.Ruled := by
  refine ⟨fun id => ?_, fun id block hget => ?_, fun id hcycle => ?_⟩
  · have hone := hg.oneParent id
    rw [length_incoming] at hone ⊢
    exact (hlinks.countP_le _).trans hone
  · rw [← nestedIn_eq_length]
    obtain ⟨old, hold, hkind⟩ | hnone := hkinds id block hget
    · have hholds := hg.capacity id old hold
      rw [← nestedIn_eq_length] at hholds
      rw [hkind]
      exact hholds.mono (hlinks.countP_le _)
    · rw [hnone]
      exact block.kind.capacity.holds_zero
  · refine hg.acyclic id (TransGen.mono (fun a b hleads => ?_) id id hcycle)
    rw [leads_iff_mem_values] at hleads ⊢
    obtain ⟨link, hlink, hends⟩ := hleads
    exact ⟨link, hlinks.subset hlink, hends⟩

/-- Losing links and exchanging values breaks no rule. -/
theorem of_fewer (hg : g.Ruled)
    (hlinks : ∀ k link, h.links.get? k = some link → g.links.get? k = some link)
    (hkinds : ∀ id block, h.blocks.get? id = some block →
      (∃ old, g.blocks.get? id = some old ∧ block.kind = old.kind) ∨ nestedIn h.links id = 0) :
    h.Ruled :=
  hg.of_subperm (Table.values_subperm_of_get? hlinks) hkinds

/-- The rules do not depend on the identifiers of links. -/
theorem of_perm (hg : g.Ruled) (hblocks : h.blocks = g.blocks)
    (hlinks : h.links.values.Perm g.links.values) : h.Ruled := by
  apply hg.of_subperm hlinks.subperm
  intro id block hget
  rw [hblocks] at hget
  exact .inl ⟨block, hget, rfl⟩

end Ruled

section DrawLink

/-- With another link, still no two links end at one block exactly if none ended at its target. -/
theorem oneParent_drawLink_iff (hfresh : g.links.get? g.nextLink = none) :
    (∀ id, ((g.drawLink link).2.incoming id).length ≤ 1) ↔
      (∀ id, (g.incoming id).length ≤ 1) ∧ g.incoming link.target = [] := by
  have hlength := length_incoming_insert hfresh link (h := (g.drawLink link).2) rfl
  constructor
  · intro hall
    refine ⟨fun id => ?_, ?_⟩
    · have hone := hall id
      rw [hlength] at hone
      omega
    · have hone := hall link.target
      rw [hlength, if_pos rfl] at hone
      exact List.eq_nil_of_length_eq_zero (by omega)
  · rintro ⟨hall, hfree⟩ id
    rw [hlength]
    by_cases heq : link.target = id
    · rw [if_pos heq, ← heq, hfree]
      rfl
    · rw [if_neg heq]
      exact hall id

/-- With another link, still no block is too full exactly if there was room at its source. -/
theorem capacity_drawLink_iff (hg : g.WellFormed) (hfresh : g.links.get? g.nextLink = none) :
    (∀ id block, (g.drawLink link).2.blocks.get? id = some block →
      block.kind.capacity.Holds ((g.drawLink link).2.outgoing id .child).length) ↔
    (∀ id block, g.blocks.get? id = some block →
      block.kind.capacity.Holds (g.outgoing id .child).length) ∧
    (link.handle = .child → ∀ block, g.blocks.get? link.source = some block →
      block.kind.capacity.hasRoom block.childCount = true) := by
  have hlength : ∀ id, ((g.drawLink link).2.outgoing id .child).length =
      (g.outgoing id .child).length + if link.source = id ∧ link.handle = .child then 1 else 0 :=
    fun id => length_outgoing_insert hfresh link rfl id .child
  have hcount : ∀ {id block}, g.blocks.get? id = some block →
      block.childCount = (g.outgoing id .child).length := by
    intro id block hget
    rw [hg.childCount_eq hget, nestedIn_eq_length]
  rw [drawLink_eq] at hlength ⊢
  constructor
  · intro hall
    refine ⟨fun id old hold => ?_, fun hhandle old hold => ?_⟩
    · obtain ⟨block, hget, hkind⟩ := exists_get?_recountWhere hold
      have hholds := hall id block hget
      rw [hkind, hlength] at hholds
      exact hholds.mono (Nat.le_add_right _ _)
    · obtain ⟨block, hget, hkind⟩ := exists_get?_recountWhere hold
      have hholds := hall link.source block hget
      rw [hkind, hlength, if_pos ⟨rfl, hhandle⟩] at hholds
      rw [hcount hold]
      exact Capacity.holds_succ_iff.1 hholds
  · rintro ⟨hall, hroom⟩ id block hget
    obtain ⟨old, hold, hkind, -, -⟩ := of_get?_recountWhere hget
    rw [hkind, hlength]
    by_cases hchild : link.source = id ∧ link.handle = .child
    · obtain ⟨rfl, hhandle⟩ := hchild
      rw [if_pos ⟨rfl, hhandle⟩, Capacity.holds_succ_iff, ← hcount hold]
      exact hroom hhandle old hold
    · rw [if_neg hchild]
      exact hall id old hold

/-- A new link closes a cycle exactly if a path led back from its target to its source. -/
theorem acyclic_drawLink_iff (hfresh : g.links.get? g.nextLink = none) :
    (g.drawLink link).2.Acyclic ↔
      g.Acyclic ∧ ¬ ReflTransGen g.Leads link.target link.source := by
  have hleads : ∀ a b, (g.drawLink link).2.Leads a b ↔
      g.Leads a b ∨ (a = link.source ∧ b = link.target) :=
    fun _ _ => leads_drawLink_iff hfresh
  constructor
  · intro hacyclic
    have hkeeps : ∀ a b, g.Leads a b → (g.drawLink link).2.Leads a b := by
      intro a b hab
      exact (hleads a b).2 (.inl hab)
    refine ⟨fun id hcycle => hacyclic id (TransGen.mono hkeeps id id hcycle), fun hpath => ?_⟩
    have hnew : (g.drawLink link).2.Leads link.source link.target :=
      (hleads _ _).2 (.inr ⟨rfl, rfl⟩)
    exact hacyclic _ (.head' hnew (ReflTransGen.mono hkeeps _ _ hpath))
  · rintro ⟨hacyclic, hpath⟩ id hcycle
    -- a path over the new link splits at its first and at its last step along that link
    have hsplit : ∀ a b, TransGen (g.drawLink link).2.Leads a b →
        TransGen g.Leads a b ∨
          (ReflTransGen g.Leads a link.source ∧ ReflTransGen g.Leads link.target b) := by
      intro a b hab
      induction hab with
      | single hstep =>
        obtain hold | ⟨rfl, rfl⟩ := (hleads _ _).1 hstep
        · exact .inl (.single hold)
        · exact .inr ⟨.refl, .refl⟩
      | tail _ hstep ih =>
        obtain hold | ⟨rfl, rfl⟩ := (hleads _ _).1 hstep
        · obtain hbefore | ⟨hto, hfrom⟩ := ih
          · exact .inl (hbefore.tail hold)
          · exact .inr ⟨hto, hfrom.tail hold⟩
        · obtain hbefore | ⟨hto, -⟩ := ih
          · exact .inr ⟨hbefore.to_reflTransGen, .refl⟩
          · exact .inr ⟨hto, .refl⟩
    obtain hold | ⟨hto, hfrom⟩ := hsplit id id hcycle
    · exact hacyclic id hold
    · exact hpath (hfrom.trans hto)

/-- A graph keeps the rules with a new link between its blocks exactly if it kept them before and
    the link fits. -/
theorem ruled_drawLink_iff (hg : g.WellFormed) (hfresh : g.links.get? g.nextLink = none)
    (hsource : g.blocks.contains link.source = true)
    (htarget : g.blocks.contains link.target = true) :
    (g.drawLink link).2.Ruled ↔ g.Ruled ∧ g.Fits link := by
  constructor
  · rintro ⟨hparent, hcapacity, hacyclic⟩
    obtain ⟨hparent, hfree⟩ := (oneParent_drawLink_iff hfresh).1 hparent
    obtain ⟨hcapacity, hroom⟩ := (capacity_drawLink_iff hg hfresh).1 hcapacity
    obtain ⟨hacyclic, hpath⟩ := (acyclic_drawLink_iff hfresh).1 hacyclic
    refine ⟨⟨hparent, hcapacity, hacyclic⟩, hsource, htarget, ?_, hfree, hroom, hpath⟩
    intro heq
    rw [heq] at hpath
    exact hpath .refl
  · rintro ⟨⟨hparent, hcapacity, hacyclic⟩, hfits⟩
    exact ⟨(oneParent_drawLink_iff hfresh).2 ⟨hparent, hfits.free⟩,
      (capacity_drawLink_iff hg hfresh).2 ⟨hcapacity, hfits.room⟩,
      (acyclic_drawLink_iff hfresh).2 ⟨hacyclic, hfits.noPath⟩⟩

end DrawLink

/-- Three of the four checks made before compiling look for exactly the graphs that keep the
    rules. -/
theorem WellFormed.ruled_iff_checks (hg : g.WellFormed) :
    g.Ruled ↔ g.severalParents? = none ∧ g.overfull? = none ∧ g.cycle? = none := by
  rw [severalParents?_eq_none_iff, hg.overfull?_eq_none_iff, hg.cycle?_eq_none_iff]
  constructor
  · intro hruled
    exact ⟨hruled.oneParent,
      fun x hx => hruled.capacity x.1 x.2 (Table.mem_entries_iff.1 hx), hruled.acyclic⟩
  · rintro ⟨hparent, hcapacity, hacyclic⟩
    exact ⟨hparent, fun id block hget => hcapacity (id, block) (Table.mem_entries_iff.2 hget),
      hacyclic⟩

/-- All that the checks may find in a graph that keeps the rules are several links to next
    blocks. -/
theorem Ruled.shapeFault?_eq (hg : g.Ruled) (hwell : g.WellFormed) :
    g.shapeFault? = g.severalSuccessors? := by
  obtain ⟨hparents, hoverfull, hcycle⟩ := hwell.ruled_iff_checks.1 hg
  rw [shapeFault?, hparents, hoverfull, hcycle]
  cases g.severalSuccessors? <;> rfl

/-- What keeps the rules has the right shape, if no block has several next blocks. -/
theorem Ruled.shaped (hg : g.Ruled) (hnext : ∀ id, (g.outgoing id .next).length ≤ 1) :
    g.Shaped where
  oneParent := hg.oneParent
  oneNext := hnext
  capacity x hx := hg.capacity x.1 x.2 (Table.mem_entries_iff.1 hx)
  acyclic := hg.acyclic

/-- What has the right shape keeps the rules. -/
theorem Shaped.ruled (hg : g.Shaped) : g.Ruled where
  oneParent := hg.oneParent
  capacity id block hget := hg.capacity (id, block) (Table.mem_entries_iff.2 hget)
  acyclic := hg.acyclic

end Graph

end CommandBlocks
