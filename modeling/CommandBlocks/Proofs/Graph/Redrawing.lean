import CommandBlocks.Proofs.Graph.Rules
import CommandBlocks.Proofs.Graph.Sound
import CommandBlocks.Proofs.Results
import Mathlib.Data.List.Permutation

namespace CommandBlocks

/-- Handing out some identifiers moves a counter on by as many. -/
theorem Id.number_iterate_next {named : Named} (i : Id named) (n : Nat) :
    (next^[n] i).number = i.number + .ofNat n := by
  induction n generalizing i with
  | zero => simp
  | succ n ih =>
    rw [Function.iterate_succ_apply, ih, UInt64.ofNat_add, next, UInt64.add_assoc,
      UInt64.add_comm 1]
    rfl

/-- An identifier comes again only after all others. -/
theorem Id.iterate_next_ne {named : Named} (i : Id named) {n : Nat} (hpos : 0 < n)
    (hn : n < 2 ^ 64) : next^[n] i ≠ i := by
  intro heq
  have hnumber := i.number_iterate_next n
  rw [heq, eq_comm, UInt64.add_eq_left] at hnumber
  have hzero := congrArg UInt64.toNat hnumber
  rw [UInt64.toNat_ofNat_of_lt' hn, UInt64.toNat_zero] at hzero
  omega

namespace Graph

variable {g h : Graph} {link : Link} {links : List Link}

/-- Draws links one after the other, whatever the rules for links say. -/
def drawLinks (g : Graph) (links : List Link) : Graph :=
  links.foldl (fun h link => (h.drawLink link).2) g

/-- Adds links one after the other, until the rules refuse one. -/
def addLinks (g : Graph) (links : List Link) : Except Refusal Graph :=
  links.foldlM (fun h link => (h.addLink link).map (·.2)) g

/-- The blocks of a graph without its links. The next link may be numbered at will. -/
def unlinked (g : Graph) (nextLink : LinkId) : Graph :=
  recount { g with links := ∅, nextLink }

theorem drawLinks_cons : g.drawLinks (link :: links) = (g.drawLink link).2.drawLinks links := rfl

/-- Links can be added one after the other if the first one fits and the others can be added after
    it. -/
theorem addLinks_cons_eq_ok_iff :
    g.addLinks (link :: links) = .ok h ↔
      g.Fits link ∧ (g.drawLink link).2.addLinks links = .ok h := by
  rw [addLinks, List.foldlM_cons, bind_eq_ok_iff]
  constructor
  · rintro ⟨next, hnext, hrest⟩
    obtain ⟨⟨id, _⟩, hadd, rfl⟩ := map_eq_ok_iff.1 hnext
    obtain ⟨hfits, hdraw⟩ := addLink_eq_ok_iff.1 hadd
    rw [hdraw]
    exact ⟨hfits, hrest⟩
  · rintro ⟨hfits, hrest⟩
    exact ⟨_, map_eq_ok_iff.2 ⟨g.drawLink link, addLink_eq_ok_iff.2 ⟨hfits, rfl⟩, rfl⟩, hrest⟩

/-- Links that are added are only drawn. -/
theorem eq_drawLinks_of_addLinks (hadd : g.addLinks links = .ok h) : h = g.drawLinks links := by
  induction links generalizing g with
  | nil => exact (Except.ok.inj hadd).symm
  | cons link links ih => exact ih (addLinks_cons_eq_ok_iff.1 hadd).2

/-- A list of links can be drawn one after the other: they join blocks of the graph, and the
    identifiers that they will get are all free. -/
structure Takes (g : Graph) (links : List Link) : Prop extends WellFormed g where
  joins : ∀ link ∈ links,
    g.blocks.contains link.source = true ∧ g.blocks.contains link.target = true
  few : links.length ≤ 2 ^ 64
  free : ∀ n < links.length, g.links.get? (Id.next^[n] g.nextLink) = none

namespace Takes

theorem get?_nextLink (hg : g.Takes (link :: links)) : g.links.get? g.nextLink = none :=
  hg.free 0 (by simp)

/-- After one of the links is drawn, the graph takes the others. -/
theorem drawLink (hg : g.Takes (link :: links)) : (g.drawLink link).2.Takes links := by
  obtain ⟨hsource, htarget⟩ := hg.joins link List.mem_cons_self
  have hfew := hg.few
  rw [List.length_cons] at hfew
  refine ⟨hg.toWellFormed.drawLink hg.get?_nextLink hsource htarget, ?_, by omega, ?_⟩
  · intro other hother
    rw [drawLink_eq, contains_recountWhere, contains_recountWhere]
    exact hg.joins other (List.mem_cons_of_mem _ hother)
  · intro n hn
    -- what comes next now came one later before, so the first link does not take it
    have hlater : Id.next^[n] g.nextLink.next = Id.next^[n + 1] g.nextLink := rfl
    rw [drawLink_eq, hlater, Table.get?_insert,
      if_neg (Id.iterate_next_ne _ (by omega) (by omega))]
    exact hg.free (n + 1) (by rw [List.length_cons]; omega)

/-- The rules hold after links are drawn exactly if they held before and refuse none of them. -/
theorem ruled_drawLinks_iff (hg : g.Takes links) :
    (g.drawLinks links).Ruled ↔ g.Ruled ∧ g.addLinks links = .ok (g.drawLinks links) := by
  induction links generalizing g with
  | nil => exact (and_iff_left rfl).symm
  | cons link links ih =>
    -- the hypothesis speaks of the graph that the first link is drawn in already, and that graph
    -- keeps the rules exactly if this one does and the link fits
    obtain ⟨hsource, htarget⟩ := hg.joins link List.mem_cons_self
    rw [drawLinks_cons, ih hg.drawLink, addLinks_cons_eq_ok_iff,
      ruled_drawLink_iff hg.toWellFormed hg.get?_nextLink hsource htarget, and_assoc]

/-- With all of the links drawn, the graph is well-formed. -/
theorem wellFormed_drawLinks (hg : g.Takes links) : (g.drawLinks links).WellFormed := by
  induction links generalizing g with
  | nil => exact hg.toWellFormed
  | cons link links ih => exact ih hg.drawLink

/-- Drawing links adds these links to those that were there. -/
theorem values_drawLinks (hg : g.Takes links) :
    (g.drawLinks links).links.values.Perm (links ++ g.links.values) := by
  induction links generalizing g with
  | nil => exact .refl _
  | cons link links ih =>
    have hdrawn : (g.drawLink link).2.links.values.Perm (link :: g.links.values) :=
      Table.perm_values_insert hg.get?_nextLink link
    exact (ih hg.drawLink).trans ((hdrawn.append_left links).trans List.perm_middle)

end Takes

/-- Drawing links changes nothing about the blocks but their child counts. -/
theorem recountWhere_drawLinks (table : Table LinkId Link) :
    recountWhere (g.drawLinks links).blocks table (fun _ => true) =
      recountWhere g.blocks table fun _ => true := by
  induction links generalizing g with
  | nil => rfl
  | cons link links ih => rw [drawLinks_cons, ih, drawLink_eq, recountWhere_recountWhere]

/-- The bare blocks of a well-formed graph take its links, in any order. -/
theorem WellFormed.takes_unlinked (hg : g.WellFormed) (nextLink : LinkId)
    (horder : links.Perm g.links.values) : (g.unlinked nextLink).Takes links := by
  refine ⟨?_, ?_, ?_, ?_⟩
  · apply wellFormed_recountWhere
    · intro k link hget
      cases hget
    · intro id block _ hnot
      cases hnot
  · intro link hlink
    obtain ⟨k, hget⟩ := Table.mem_values.1 (horder.subset hlink)
    rw [unlinked, recount, contains_recountWhere, contains_recountWhere]
    exact ⟨hg.contains_source hget, hg.contains_target hget⟩
  · -- there are no more links than identifiers, which therefore do not come again
    have hsize : g.links.size ≤ 2 ^ 64 := Table.size_le_of_below fun k _ => k.number.toNat_lt
    rw [horder.length_eq, Table.values, List.length_map]
    exact hsize
  · intro n _
    rfl

/-- Links that are drawn anew give the graph back, but for the identifiers of the links. -/
theorem WellFormed.drawLinks_unlinked (hg : g.WellFormed) (nextLink : LinkId)
    (horder : links.Perm g.links.values) :
    ((g.unlinked nextLink).drawLinks links).blocks = g.blocks ∧
      ((g.unlinked nextLink).drawLinks links).links.values.Perm g.links.values := by
  have htakes := hg.takes_unlinked nextLink horder
  have hperm : ((g.unlinked nextLink).drawLinks links).links.values.Perm g.links.values := by
    have hvalues := htakes.values_drawLinks
    rw [show (g.unlinked nextLink).links.values = [] from rfl, List.append_nil] at hvalues
    exact hvalues.trans horder
  refine ⟨?_, hperm⟩
  calc ((g.unlinked nextLink).drawLinks links).blocks
    _ = recountWhere ((g.unlinked nextLink).drawLinks links).blocks
          ((g.unlinked nextLink).drawLinks links).links (fun _ => true) :=
        (congrArg Graph.blocks htakes.wellFormed_drawLinks.recount_eq).symm
    _ = recountWhere g.blocks ((g.unlinked nextLink).drawLinks links).links (fun _ => true) := by
        rw [recountWhere_drawLinks, unlinked, recount, recountWhere_recountWhere]
    _ = recountWhere g.blocks g.links (fun _ => true) := recountWhere_congr hperm
    _ = g.blocks := congrArg Graph.blocks hg.recount_eq

/-- A well-formed graph keeps the rules exactly if its links can be added to its bare blocks, in
    whatever order. -/
theorem WellFormed.ruled_iff_addLinks (hg : g.WellFormed) (nextLink : LinkId)
    (horder : links.Perm g.links.values) :
    g.Ruled ↔ ∃ h, (g.unlinked nextLink).addLinks links = .ok h := by
  obtain ⟨hblocks, hperm⟩ := hg.drawLinks_unlinked nextLink horder
  have hbare : (g.unlinked nextLink).Ruled := ruled_of_links_eq_empty rfl
  have hdrawn := (hg.takes_unlinked nextLink horder).ruled_drawLinks_iff
  constructor
  · intro hruled
    exact ⟨_, (hdrawn.1 (hruled.of_perm hblocks hperm)).2⟩
  · rintro ⟨h, hadd⟩
    rw [eq_drawLinks_of_addLinks hadd] at hadd
    exact (hdrawn.2 ⟨hbare, hadd⟩).of_perm hblocks.symm hperm.symm

/-- The links of a well-formed graph can be added one after the other to its bare blocks exactly if
    the checks for several parents, for too many children and for cycles find no fault. This gives
    the graph back, but for the identifiers of its links, and whether it succeeds does not depend
    on the order of the links. -/
theorem checks_iff_addLinks (hg : g.WellFormed) (nextLink : LinkId) {order : List Link}
    (horder : order.Perm g.links.values) :
    ((g.severalParents? = none ∧ g.overfull? = none ∧ g.cycle? = none) ↔
      ∃ h, (g.unlinked nextLink).addLinks order = .ok h) ∧
    (∀ h, (g.unlinked nextLink).addLinks order = .ok h →
      h.blocks = g.blocks ∧ h.links.values.Perm g.links.values) ∧
    ∀ {other : List Link}, other.Perm g.links.values →
      (∃ h, (g.unlinked nextLink).addLinks order = .ok h) →
        ∃ h, (g.unlinked nextLink).addLinks other = .ok h := by
  have hiff := hg.ruled_iff_addLinks nextLink horder
  refine ⟨hg.ruled_iff_checks.symm.trans hiff, fun h hadd => ?_, fun hother hadd => ?_⟩
  · rw [eq_drawLinks_of_addLinks hadd]
    exact hg.drawLinks_unlinked nextLink horder
  · exact (hg.ruled_iff_addLinks nextLink hother).1 (hiff.2 hadd)

/-- A block that holds as many blocks as it may, one of which another block follows. Some links are
    gone from it. -/
def fullBranches : Graph where
  blocks := .ofList [(⟨0⟩, { kind := .ifElse, childCount := 2 }), (⟨1⟩, { kind := .waitSeconds }),
    (⟨2⟩, { kind := .gpioWrite }), (⟨3⟩, { kind := .captureImage })]
  links := .ofList [(⟨1⟩, ⟨⟨0⟩, .child, ⟨1⟩⟩), (⟨4⟩, ⟨⟨0⟩, .child, ⟨2⟩⟩), (⟨5⟩, ⟨⟨2⟩, .next, ⟨3⟩⟩)]
  nextBlock := ⟨4⟩
  nextLink := ⟨7⟩

theorem addLinks_fullBranches : fullBranches.WellFormed ∧
    fullBranches.links.values.reverse.Perm fullBranches.links.values ∧
    ∃ h, (fullBranches.unlinked ⟨0⟩).addLinks fullBranches.links.values.reverse = .ok h := by
  have hg : fullBranches.WellFormed := ⟨by decide, by decide⟩
  have horder := fullBranches.links.values.reverse_perm
  refine ⟨hg, horder, (checks_iff_addLinks hg ⟨0⟩ horder).1.1 ⟨?_, ?_, ?_⟩⟩
  · cbv
  · cbv
  · cbv

end Graph

end CommandBlocks
