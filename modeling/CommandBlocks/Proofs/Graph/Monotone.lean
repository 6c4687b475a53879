import CommandBlocks.Proofs.Graph.Connecting
import CommandBlocks.Proofs.Graph.Operations
import CommandBlocks.Proofs.Graph.Shape

namespace CommandBlocks

/-- Where there is room for more blocks, there is room beside fewer. -/
theorem Capacity.hasRoom_mono {capacity : Capacity} {held fewer : Nat}
    (hroom : capacity.hasRoom held = true) (hle : fewer ≤ held) :
    capacity.hasRoom fewer = true := by
  rw [← holds_succ_iff] at hroom ⊢
  exact hroom.mono (Nat.succ_le_succ hle)

namespace Graph

open Relation

variable {g h : Graph} {link : Link}

/-- A graph asks no more of a proposed link than another one: it has no further links, and the
    blocks at the ends of the proposed link are still there, of the same kinds and without further
    blocks nested in them. -/
structure Eases (g h : Graph) (link : Link) : Prop where
  links : ∀ k other, h.links.get? k = some other → g.links.get? k = some other
  ends : ∀ id, id = link.source ∨ id = link.target → ∀ old, g.blocks.get? id = some old →
    ∃ new, h.blocks.get? id = some new ∧ new.kind = old.kind ∧ new.childCount ≤ old.childCount

namespace Eases

/-- No block leads to another that it did not lead to in the graph that asks more. -/
theorem leads (heases : g.Eases h link) {source target : BlockId}
    (hleads : h.Leads source target) : g.Leads source target := by
  obtain ⟨k, other, hget, hsource, htarget⟩ := hleads
  exact ⟨k, other, heases.links k other hget, hsource, htarget⟩

theorem contains (heases : g.Eases h link) {id : BlockId}
    (hend : id = link.source ∨ id = link.target) (hid : g.blocks.contains id = true) :
    h.blocks.contains id = true := by
  obtain ⟨old, hold⟩ := Table.contains_iff.1 hid
  obtain ⟨new, hnew, -⟩ := heases.ends id hend old hold
  exact Table.contains_of_get? hnew

/-- Each of the rules is kept when no more is asked of the link. -/
theorem fits (heases : g.Eases h link) (hfits : g.Fits link) : h.Fits link where
  source := heases.contains (.inl rfl) hfits.source
  target := heases.contains (.inr rfl) hfits.target
  apart := hfits.apart
  free := by
    rw [List.eq_nil_iff_forall_not_mem]
    intro x hx
    obtain ⟨hget, htarget⟩ := mem_incoming.1 hx
    have hold : x ∈ g.incoming link.target := mem_incoming.2 ⟨heases.links _ _ hget, htarget⟩
    simp [hfits.free] at hold
  room := by
    intro hchild new hnew
    obtain ⟨old, hold⟩ := Table.contains_iff.1 hfits.source
    obtain ⟨found, hfound, hkind, hcount⟩ := heases.ends link.source (.inl rfl) old hold
    obtain rfl : new = found := by simpa [hnew] using hfound
    rw [hkind]
    exact Capacity.hasRoom_mono (hfits.room hchild old hold) hcount
  noPath := by
    intro hpath
    exact hfits.noPath (ReflTransGen.mono (fun _ _ hleads => heases.leads hleads) _ _ hpath)

/-- A link that one graph accepts is accepted by every graph that asks no more of it. -/
theorem refusal? (heases : g.Eases h link) (haccepted : g.refusal? link = none) :
    h.refusal? link = none :=
  refusal?_eq_none_iff.2 (heases.fits (refusal?_eq_none_iff.1 haccepted))

end Eases

/-- Child counts follow the links, so it is enough that no link is new. -/
theorem WellFormed.eases (hg : g.WellFormed) (hh : h.WellFormed)
    (hlinks : ∀ k other, h.links.get? k = some other → g.links.get? k = some other)
    (hends : ∀ id, id = link.source ∨ id = link.target → ∀ old, g.blocks.get? id = some old →
      ∃ new, h.blocks.get? id = some new ∧ new.kind = old.kind) : g.Eases h link where
  links := hlinks
  ends := by
    intro id hend old hold
    obtain ⟨new, hnew, hkind⟩ := hends id hend old hold
    refine ⟨new, hnew, hkind, ?_⟩
    rw [hg.childCount_eq hold, hh.childCount_eq hnew]
    exact nestedIn_le_of_get? fun k other hget _ _ => hlinks k other hget

/-- Without one of its links, a graph asks no more of another link. -/
theorem WellFormed.eases_removeLink (hg : g.WellFormed) {id : LinkId} {gone : Link}
    (hremove : g.removeLink id = .ok (gone, h)) (link : Link) : g.Eases h link := by
  have hh := hg.removeLink hremove
  obtain ⟨-, rfl⟩ := of_removeLink hremove
  apply hg.eases hh
  · intro k other hget
    exact (Table.get?_erase_eq_some.1 hget).2
  · intro other _ old hold
    exact exists_get?_recountWhere hold

/-- Without a block that is no end of a link, a graph asks no more of that link. -/
theorem WellFormed.eases_removeBlock (hg : g.WellFormed) {id : BlockId} {gone : Block}
    (hremove : g.removeBlock id = .ok (gone, h)) (hsource : id ≠ link.source)
    (htarget : id ≠ link.target) : g.Eases h link := by
  have hh := hg.removeBlock hremove
  obtain ⟨links, lost, rfl, hlinks, -⟩ := of_removeBlock hremove
  apply hg.eases hh
  · intro k other hget
    exact ((hlinks k other).1 hget).1
  · intro other hend old hold
    have hother : other ≠ id := by
      rintro rfl
      exact hend.elim hsource htarget
    exact exists_get?_recountWhere (Table.get?_erase_eq_some.2 ⟨hother, hold⟩)

/-- A new block is no block that was there before. -/
theorem eases_addBlock (hfresh : g.blocks.get? g.nextBlock = none) (kind : Kind) (link : Link) :
    g.Eases (g.addBlock kind).2 link where
  links _ _ hget := hget
  ends := by
    intro id _ old hold
    have hid : id ≠ g.nextBlock := by
      rintro rfl
      simp [hfresh] at hold
    exact ⟨old, Table.get?_insert_eq_some.2 (.inr ⟨hid, hold⟩), rfl, le_rfl⟩

/-- With other values, a graph asks no more of a link. -/
theorem Revalues.eases (hvalues : g.Revalues h) (link : Link) : g.Eases h link := by
  obtain ⟨id, block, values, hget, -, rfl⟩ := hvalues
  refine ⟨fun _ _ hlink => hlink, fun other _ old hold => ?_⟩
  by_cases hother : other = id
  · obtain rfl : block = old := by simpa [hother, hget] using hold
    exact ⟨_, Table.get?_insert_eq_some.2 (.inl ⟨hother, rfl⟩), rfl, le_rfl⟩
  · exact ⟨old, Table.get?_insert_eq_some.2 (.inr ⟨hother, hold⟩), rfl, le_rfl⟩

/-- The graph asked no more of any link before a further one was drawn. -/
theorem WellFormed.eases_of_addLink (hg : g.WellFormed) (hfresh : g.links.get? g.nextLink = none)
    {added : Link} {id : LinkId} (hadd : g.addLink added = .ok (id, h)) (link : Link) :
    h.Eases g link := by
  obtain ⟨hfits, hdraw⟩ := addLink_eq_ok_iff.1 hadd
  obtain rfl : (g.drawLink added).2 = h := congrArg Prod.snd hdraw
  apply (hg.drawLink hfresh hfits.source hfits.target).eases hg
  · intro k other hget
    have hk : k ≠ g.nextLink := by
      rintro rfl
      simp [hfresh] at hget
    exact Table.get?_insert_eq_some.2 (.inr ⟨hk, hget⟩)
  · intro other _ new hnew
    rw [drawLink_eq] at hnew
    obtain ⟨old, hold, hkind, -⟩ := of_get?_recountWhere hnew
    exact ⟨old, hold, hkind.symm⟩

/-- A proposed link that the rules accept is still accepted after any link is removed, after any
    block but its source and its target is removed, after a block is added, and after a value is
    entered or taken away. And a link that they refuse is still refused when they accept another
    one, which is drawn. -/
theorem refusal?_monotone (hg : g.WellFormed)
    (hblocks : ∀ x ∈ g.blocks.entries, x.1.number < g.nextBlock.number)
    (hlinks : ∀ x ∈ g.links.entries, x.1.number < g.nextLink.number) :
    (∀ link, g.refusal? link = none →
      (∀ id gone, g.links.get? id = some gone → ∃ h, g.removeLink id = .ok (gone, h) ∧
        h.refusal? link = none) ∧
      (∀ id gone, g.blocks.get? id = some gone → id ≠ link.source → id ≠ link.target →
        ∃ h, g.removeBlock id = .ok (gone, h) ∧ h.refusal? link = none) ∧
      (∀ kind, (g.addBlock kind).2.refusal? link = none) ∧
      (∀ id name value h, g.setValue id name value = .ok h → h.refusal? link = none) ∧
      ∀ id name value h, g.clearValue id name = .ok (value, h) → h.refusal? link = none) ∧
    ∀ added id h, g.addLink added = .ok (id, h) → ∀ link, g.refusal? link ≠ none →
      h.refusal? link ≠ none := by
  have hblock := Table.get?_eq_none_of_below hblocks
  have hlink := Table.get?_eq_none_of_below hlinks
  refine ⟨fun link haccepted => ⟨?_, ?_, ?_, ?_, ?_⟩, ?_⟩
  · intro id gone hget
    obtain ⟨h, hremove⟩ := exists_removeLink hget
    exact ⟨h, hremove, (hg.eases_removeLink hremove link).refusal? haccepted⟩
  · intro id gone hget hsource htarget
    obtain ⟨h, hremove⟩ := exists_removeBlock hget
    exact ⟨h, hremove, (hg.eases_removeBlock hremove hsource htarget).refusal? haccepted⟩
  · intro kind
    exact (eases_addBlock hblock kind link).refusal? haccepted
  · intro id name value h hset
    exact ((revalues_of_setValue hset).eases link).refusal? haccepted
  · intro id name value h hclear
    exact ((revalues_of_clearValue hclear).eases link).refusal? haccepted
  · intro added id h hadd link hrefused haccepted
    exact hrefused ((hg.eases_of_addLink hlink hadd link).refusal? haccepted)

/-- A branch with room for one more block, and a chain in the block that it holds. -/
def roomyBranch : Graph where
  blocks := .ofList [(⟨0⟩, { kind := .ifElse, childCount := 1 }), (⟨1⟩, { kind := .waitSeconds }),
    (⟨3⟩, { kind := .gpioWrite }), (⟨4⟩, { kind := .captureImage })]
  links := .ofList [(⟨0⟩, ⟨⟨0⟩, .child, ⟨1⟩⟩), (⟨2⟩, ⟨⟨1⟩, .next, ⟨3⟩⟩)]
  nextBlock := ⟨6⟩
  nextLink := ⟨3⟩

theorem refusal?_roomyBranch : roomyBranch.WellFormed ∧
    (∀ x ∈ roomyBranch.blocks.entries, x.1.number < roomyBranch.nextBlock.number) ∧
    (∀ x ∈ roomyBranch.links.entries, x.1.number < roomyBranch.nextLink.number) ∧
    roomyBranch.refusal? ⟨⟨0⟩, .child, ⟨4⟩⟩ = none ∧
    (∃ h, roomyBranch.removeLink ⟨2⟩ = .ok (⟨⟨1⟩, .next, ⟨3⟩⟩, h) ∧
      h.refusal? ⟨⟨0⟩, .child, ⟨4⟩⟩ = none) ∧
    (∃ h, roomyBranch.removeBlock ⟨1⟩ = .ok ({ kind := .waitSeconds }, h) ∧
      h.refusal? ⟨⟨0⟩, .child, ⟨4⟩⟩ = none) ∧
    ∃ id h, roomyBranch.addLink ⟨⟨0⟩, .child, ⟨4⟩⟩ = .ok (id, h) ∧
      h.refusal? ⟨⟨3⟩, .next, ⟨0⟩⟩ ≠ none := by
  have hg : roomyBranch.WellFormed := ⟨by decide, by decide⟩
  have hblocks : ∀ x ∈ roomyBranch.blocks.entries,
      x.1.number < roomyBranch.nextBlock.number := by decide
  have hlinks : ∀ x ∈ roomyBranch.links.entries,
      x.1.number < roomyBranch.nextLink.number := by decide
  have haccepted : roomyBranch.refusal? ⟨⟨0⟩, .child, ⟨4⟩⟩ = none := by decide +kernel
  have hrefused : roomyBranch.refusal? ⟨⟨3⟩, .next, ⟨0⟩⟩ = some (.cycle ⟨3⟩ ⟨0⟩) := by
    decide +kernel
  have hadd : roomyBranch.addLink ⟨⟨0⟩, .child, ⟨4⟩⟩ =
      .ok (roomyBranch.drawLink ⟨⟨0⟩, .child, ⟨4⟩⟩) := by rw [addLink, haccepted]
  obtain ⟨hkept, hstill⟩ := refusal?_monotone hg hblocks hlinks
  obtain ⟨hlink, hblock, -⟩ := hkept _ haccepted
  refine ⟨hg, hblocks, hlinks, haccepted, hlink ⟨2⟩ _ rfl,
    hblock ⟨1⟩ _ rfl (by decide) (by decide), _, _, hadd, hstill _ _ _ hadd _ ?_⟩
  simp [hrefused]

end Graph

end CommandBlocks

