import CommandBlocks.Proofs.Editing.Origins
import CommandBlocks.Proofs.Program.Entered

namespace CommandBlocks.Graph

variable {g h : Graph} {link : Link}

/-- Editing leads to a graph, wherever it starts, before the identifiers are used up. -/
inductive Reachable : Graph → Prop
  | edited {start : Graph} {blocks links : Nat} {edits : List Edit}
    (origin : Origin start blocks links) (fewBlocks : blocks < 2 ^ 64) (fewLinks : links < 2 ^ 64)
    (room : start.Room edits) : Reachable (start.run edits)

/-- Every graph that can be reached by editing is sound. -/
theorem Reachable.sound (hg : g.Reachable) : g.Sound := by
  obtain ⟨horigin, hblocks, hlinks, hroom⟩ := hg
  exact (horigin.sound hblocks hlinks).1.run hroom

/-- The child counts of a well-formed graph are known from its links, so they are back when the
    links are. -/
theorem WellFormed.removeLink_drawLink (hg : g.WellFormed)
    (hfresh : g.links.get? g.nextLink = none) (hsource : g.blocks.contains link.source = true)
    (htarget : g.blocks.contains link.target = true) :
    (g.drawLink link).2.removeLink g.nextLink =
      .ok (link, { g with nextLink := g.nextLink.next }) := by
  have hdrawn := hg.drawLink hfresh hsource htarget
  have hget : (g.drawLink link).2.links.get? g.nextLink = some link := Table.get?_insert_self _ _ _
  obtain ⟨h, hremove⟩ := exists_removeLink hget
  have hcounted := (hdrawn.removeLink hremove).recount_eq
  have hblocks : recountWhere g.blocks g.links (fun _ => true) = g.blocks :=
    congrArg blocks hg.recount_eq
  have herase : (g.drawLink link).2.links.erase g.nextLink = g.links :=
    Table.erase_insert_of_fresh hfresh link
  obtain ⟨-, rfl⟩ := of_removeLink hremove
  rw [hremove, ← hcounted, recount, recountWhere_recountWhere, herase, drawLink_eq,
    recountWhere_recountWhere, hblocks]

/-- A link that the rules accept can be removed again, and is given back as it was proposed. All is
    then as before, except that one more identifier of links is used up; so the rules say the same
    about every proposed link, and compiling ends in the same program or fault. -/
theorem removeLink_addLink (hg : g.Reachable) (hcounter : g.nextLink.number.toNat < 2 ^ 64 - 1)
    {id : LinkId} (hadd : g.addLink link = .ok (id, h)) :
    ∃ back, h.removeLink id = .ok (link, back) ∧
      back.blocks = g.blocks ∧ back.links = g.links ∧ back.nextBlock = g.nextBlock ∧
      back.nextLink.number.toNat = g.nextLink.number.toNat + 1 ∧
      (∀ other, back.refusal? other = g.refusal? other) ∧
      ∀ options, back.compile options = g.compile options := by
  have hsound := hg.sound
  obtain ⟨hfits, hdraw⟩ := addLink_eq_ok_iff.1 hadd
  obtain ⟨rfl, rfl⟩ := Prod.mk.inj hdraw
  refine ⟨_, hsound.toWellFormed.removeLink_drawLink hsound.get?_nextLink hfits.source hfits.target,
    rfl, rfl, rfl, Id.toNat_next (by omega), fun other => rfl, fun options => ?_⟩
  refine compile_congr rfl (fun id block block' hget hget' => ?_) rfl
  obtain rfl := Option.some.inj (hget.symm.trans hget')
  rfl

/-- A condition that has lost the only block that it had room for. -/
def emptiedCondition : Graph where
  blocks := .ofList [(⟨0⟩, { kind := .ifThen }), (⟨1⟩, { kind := .waitSeconds }),
    (⟨2⟩, { kind := .captureImage })]
  nextBlock := ⟨3⟩
  nextLink := ⟨1⟩

theorem removeLink_addLink_emptiedCondition :
    emptiedCondition.Reachable ∧ emptiedCondition.nextLink.number.toNat < 2 ^ 64 - 1 ∧
      ∃ h back, emptiedCondition.addLink ⟨⟨0⟩, .child, ⟨2⟩⟩ = .ok (⟨1⟩, h) ∧
        h.removeLink ⟨1⟩ = .ok (⟨⟨0⟩, .child, ⟨2⟩⟩, back) ∧ back.blocks = emptiedCondition.blocks ∧
        back.nextLink.number.toNat = 2 ∧ back.refusal? ⟨⟨0⟩, .child, ⟨1⟩⟩ = none := by
  have hrun : (∅ : Graph).run [.addBlock .ifThen, .addBlock .waitSeconds, .addBlock .captureImage,
      .addLink ⟨⟨0⟩, .child, ⟨1⟩⟩, .addLink ⟨⟨0⟩, .child, ⟨2⟩⟩, .removeLink ⟨0⟩] =
        emptiedCondition := by with_unfolding_all rfl
  have hreach : emptiedCondition.Reachable :=
    hrun ▸ .edited .empty (by decide) (by decide) ⟨by decide, by decide +kernel⟩
  have hcounter : emptiedCondition.nextLink.number.toNat < 2 ^ 64 - 1 := by decide
  have hadd : emptiedCondition.addLink ⟨⟨0⟩, .child, ⟨2⟩⟩ =
      .ok (emptiedCondition.drawLink ⟨⟨0⟩, .child, ⟨2⟩⟩) := by cbv
  have hagain : emptiedCondition.refusal? ⟨⟨0⟩, .child, ⟨1⟩⟩ = none := by cbv
  obtain ⟨back, hremove, hblocks, -, -, hnext, hrules, -⟩ := removeLink_addLink hreach hcounter hadd
  exact ⟨hreach, hcounter, _, back, hadd, hremove, hblocks, hnext, (hrules _).trans hagain⟩

end CommandBlocks.Graph
