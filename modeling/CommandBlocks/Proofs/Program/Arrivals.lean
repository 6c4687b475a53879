import CommandBlocks.Proofs.Program.Building
import CommandBlocks.Proofs.Program.Unrolling

namespace CommandBlocks

/-- A way to come to a block: as the start at a position, or over a link. -/
inductive Arrival where
  | start (position : Nat)
  | link (id : LinkId)

namespace Arrival

/-- The way over a link, with the block to which it comes. -/
def ofLink (x : LinkId × Link) : Arrival × BlockId := (.link x.1, x.2.target)

/-- The way to a start at a position. -/
def ofStart (x : BlockId × Nat) : Arrival × BlockId := (.start x.2, x.1)

theorem map_ofLink_fst (links : List (LinkId × Link)) :
    (links.map ofLink).map (·.1) = (links.map (·.1)).map .link := by
  rw [List.map_map, List.map_map]
  rfl

theorem map_ofLink_snd (links : List (LinkId × Link)) :
    (links.map ofLink).map (·.2) = links.map (·.2.target) := by
  rw [List.map_map]
  rfl

theorem map_ofStart_fst (starts : List (BlockId × Nat)) :
    (starts.map ofStart).map (·.1) = (starts.map (·.2)).map .start := by
  rw [List.map_map, List.map_map]
  rfl

theorem map_ofStart_snd (starts : List (BlockId × Nat)) :
    (starts.map ofStart).map (·.2) = starts.map (·.1) := by
  rw [List.map_map]
  rfl

theorem link_mem_map_ofLink {k : LinkId} {links : List (LinkId × Link)} :
    .link k ∈ (links.map ofLink).map (·.1) ↔ ∃ link, (k, link) ∈ links := by
  rw [map_ofLink_fst, List.mem_map_of_injective fun _ _ => link.inj]
  simp

end Arrival

namespace Graph

variable {g : Graph} {options : Options} {starts : List BlockId}

/-- The links that are followed from a block: those to its children, and of those to next blocks the
    first. -/
def followedLinks (g : Graph) (id : BlockId) : List (LinkId × Link) :=
  g.outgoing id .child ++ (g.outgoing id .next).head?.toList

/-- Following links from the starts comes to a block in some way. -/
inductive Arrives (g : Graph) (starts : List BlockId) : Arrival → BlockId → Prop
  | start {position id} (hstart : starts[position]? = some id) :
      Arrives g starts (.start position) id
  | link {arrival k link} (hsource : Arrives g starts arrival link.source)
      (hblock : g.blocks.contains link.source = true)
      (hfollowed : (k, link) ∈ g.followedLinks link.source) :
      Arrives g starts (.link k) link.target

/-- The ways in which the loop has come to blocks so far, among them those that still wait. No way
    is taken twice, because a link is followed only when its source opens a statement, if it leads
    to a child, or closes it. -/
private structure Arrived (g : Graph) (starts fresh opened : List BlockId)
    (ways waiting : List (Arrival × BlockId)) : Prop where
  arrives : ∀ way ∈ ways, g.Arrives starts way.1 way.2
  nodup : (ways.map (·.1)).Nodup
  sublist : waiting.Sublist ways
  /-- Blocks that are not fresh were come to in a way that waits no more. -/
  met : ∀ id, g.blocks.contains id = true → id ∉ fresh →
    ∃ arrival, (arrival, id) ∈ ways ∧ (arrival, id) ∉ waiting
  followed : ∀ k link, .link k ∈ ways.map (·.1) → g.links.get? k = some link →
    link.source ∉ fresh ∧ (link.handle = .next → link.source ∉ opened)
  nodupFresh : fresh.Nodup
  nodupOpened : opened.Nodup
  openedBlocks : ∀ id ∈ opened, g.blocks.contains id = true ∧ id ∉ fresh

namespace Arrived

variable {fresh opened : List BlockId} {ways waiting : List (Arrival × BlockId)}
  {arrival : Arrival} {id : BlockId}

/-- An arrival that is waiting may be passed over. -/
private theorem pass (h : g.Arrived starts fresh opened ways ((arrival, id) :: waiting)) :
    g.Arrived starts fresh opened ways waiting where
  __ := h
  sublist := (List.sublist_cons_self _ _).trans h.sublist
  met other hblock hother := by
    obtain ⟨first, hfirst, hwaiting⟩ := h.met other hblock hother
    exact ⟨first, hfirst, fun hmem => hwaiting (List.mem_cons_of_mem _ hmem)⟩

/-- A fresh block whose turn comes is met, and its statement is open. -/
private theorem enter (h : g.Arrived starts fresh opened ways ((arrival, id) :: waiting))
    (hblock : g.blocks.contains id = true) (hid : id ∈ fresh) :
    g.Arrived starts (fresh.erase id) (id :: opened) ways waiting where
  arrives := h.arrives
  nodup := h.nodup
  sublist := h.pass.sublist
  met other hother hfresh := by
    by_cases heq : other = id
    · subst heq
      have hnodup : ((arrival, other) :: waiting).Nodup :=
        (List.Nodup.of_map _ h.nodup).sublist h.sublist
      exact ⟨arrival, h.sublist.subset List.mem_cons_self, (List.nodup_cons.1 hnodup).1⟩
    · exact h.pass.met other hother fun hmem => hfresh ((List.mem_erase_of_ne heq).2 hmem)
  followed k link hmem hget := by
    obtain ⟨hsource, hopened⟩ := h.followed k link hmem hget
    refine ⟨fun hmem => hsource (List.mem_of_mem_erase hmem), fun hnext => ?_⟩
    rw [List.mem_cons, not_or]
    exact ⟨fun heq => hsource (heq ▸ hid), hopened hnext⟩
  nodupFresh := h.nodupFresh.erase id
  nodupOpened := List.nodup_cons.2 ⟨fun hmem => (h.openedBlocks id hmem).2 hid, h.nodupOpened⟩
  openedBlocks := by
    refine List.forall_mem_cons.2 ⟨⟨hblock, h.nodupFresh.not_mem_erase⟩, fun other hother => ?_⟩
    obtain ⟨hcontains, hfresh⟩ := h.openedBlocks other hother
    exact ⟨hcontains, fun hmem => hfresh (List.mem_of_mem_erase hmem)⟩

/-- Closing a statement leaves its block met. -/
private theorem leave (h : g.Arrived starts fresh (id :: opened) ways waiting) :
    g.Arrived starts fresh opened ways waiting where
  __ := h
  followed k link hmem hget := by
    obtain ⟨hsource, hopened⟩ := h.followed k link hmem hget
    exact ⟨hsource, fun hnext hmem => hopened hnext (List.mem_cons_of_mem _ hmem)⟩
  nodupOpened := (List.nodup_cons.1 h.nodupOpened).2
  openedBlocks := (List.forall_mem_cons.1 h.openedBlocks).2

/-- Links that are followed for the first time give ways that wait. -/
private theorem follow (h : g.Arrived starts fresh opened ways waiting)
    {links : List (LinkId × Link)} (hnodup : (links.map (·.1)).Nodup)
    (hlinks : ∀ x ∈ links, g.links.get? x.1 = some x.2 ∧ x ∈ g.followedLinks x.2.source ∧
      g.blocks.contains x.2.source = true ∧ x.2.source ∉ fresh ∧
      (x.2.handle = .next → x.2.source ∉ opened))
    (hnew : ∀ x ∈ links, .link x.1 ∉ ways.map (·.1)) :
    g.Arrived starts fresh opened (links.map Arrival.ofLink ++ ways)
      (links.map Arrival.ofLink ++ waiting) where
  arrives way hway := by
    obtain hlink | hold := List.mem_append.1 hway
    · obtain ⟨x, hx, rfl⟩ := List.mem_map.1 hlink
      obtain ⟨-, hfollowed, hblock, hfresh, -⟩ := hlinks x hx
      obtain ⟨arrival, hmet, -⟩ := h.met _ hblock hfresh
      exact .link (h.arrives _ hmet) hblock hfollowed
    · exact h.arrives way hold
  nodup := by
    rw [List.map_append, Arrival.map_ofLink_fst, List.nodup_append']
    refine ⟨hnodup.map fun _ _ => Arrival.link.inj, h.nodup, fun arrival hlink hold => ?_⟩
    obtain ⟨k, hk, rfl⟩ := List.mem_map.1 hlink
    obtain ⟨x, hx, rfl⟩ := List.mem_map.1 hk
    exact hnew x hx hold
  sublist := h.sublist.append_left _
  met other hblock hother := by
    obtain ⟨arrival, hmem, hwaiting⟩ := h.met other hblock hother
    refine ⟨arrival, List.mem_append_right _ hmem, ?_⟩
    rw [List.mem_append, not_or]
    refine ⟨fun hlink => ?_, hwaiting⟩
    obtain ⟨x, hx, heq⟩ := List.mem_map.1 hlink
    exact hnew x hx (List.mem_map.2 ⟨_, hmem, (congrArg Prod.fst heq).symm⟩)
  followed k link hmem hget := by
    rw [List.map_append, List.mem_append, Arrival.link_mem_map_ofLink] at hmem
    obtain ⟨other, hx⟩ | hold := hmem
    · obtain ⟨hother, -, -, hfresh, hopened⟩ := hlinks (k, other) hx
      obtain rfl : other = link := Option.some.inj (hother.symm.trans hget)
      exact ⟨hfresh, hopened⟩
    · exact h.followed k link hold hget
  nodupFresh := h.nodupFresh
  nodupOpened := h.nodupOpened
  openedBlocks := h.openedBlocks

/-- Opening the statement of a block lets the arrivals at its children wait. -/
private theorem openStatement (h : g.Arrived starts fresh opened ways ((arrival, id) :: waiting))
    (hblock : g.blocks.contains id = true) (hid : id ∈ fresh) :
    g.Arrived starts (fresh.erase id) (id :: opened)
      ((g.outgoing id .child).map Arrival.ofLink ++ ways)
      ((g.outgoing id .child).map Arrival.ofLink ++ waiting) := by
  have hnodup : ((g.outgoing id .child).map (·.1)).Nodup :=
    g.links.nodup_keys.sublist (List.filter_sublist.map _)
  refine (h.enter hblock hid).follow hnodup ?_ ?_
  · rintro ⟨k, link⟩ hmem
    obtain ⟨hget, rfl, hhandle⟩ := mem_outgoing.1 hmem
    refine ⟨hget, List.mem_append_left _ hmem, hblock, h.nodupFresh.not_mem_erase, ?_⟩
    simp [hhandle]
  · rintro ⟨k, link⟩ hmem hold
    obtain ⟨hget, rfl, -⟩ := mem_outgoing.1 hmem
    exact (h.followed k link hold hget).1 hid

/-- Closing the statement of a block lets the arrival at its next block wait. -/
private theorem closeStatement (h : g.Arrived starts fresh (id :: opened) ways waiting) :
    g.Arrived starts fresh opened
      ((g.outgoing id .next).head?.toList.map Arrival.ofLink ++ ways)
      ((g.outgoing id .next).head?.toList.map Arrival.ofLink ++ waiting) := by
  obtain ⟨hblock, hid⟩ := h.openedBlocks id List.mem_cons_self
  have hmem : ∀ x ∈ (g.outgoing id .next).head?.toList, x ∈ g.outgoing id .next :=
    fun x hx => List.mem_of_mem_head? (Option.mem_toList.1 hx)
  have hnodup : ((g.outgoing id .next).head?.toList.map (·.1)).Nodup := by
    cases (g.outgoing id .next).head? <;> simp
  refine h.leave.follow hnodup ?_ ?_
  · rintro ⟨k, link⟩ hx
    obtain ⟨hget, rfl, -⟩ := mem_outgoing.1 (hmem _ hx)
    exact ⟨hget, List.mem_append_right _ hx, hblock, hid,
      fun _ => (List.nodup_cons.1 h.nodupOpened).1⟩
  · rintro ⟨k, link⟩ hx hold
    obtain ⟨hget, rfl, hhandle⟩ := mem_outgoing.1 (hmem _ hx)
    exact (h.followed k link hold hget).2 hhandle List.mem_cons_self

end Arrived

/-- The next block that waits is waited for in some way. -/
private theorem exists_way {waiting : List (Arrival × BlockId)} {id : BlockId} {ids : List BlockId}
    (htargets : waiting.map (·.2) = id :: ids) :
    ∃ arrival later, waiting = (arrival, id) :: later ∧ later.map (·.2) = ids := by
  obtain ⟨way, later, rfl, rfl, hlater⟩ := List.map_eq_cons_iff.1 htargets
  exact ⟨way.1, later, rfl, hlater⟩

/-- When putting a program together ends in a cycle, some block has been arrived at in two ways. -/
private theorem arrives_twice_of_arrived {fresh pending : List BlockId} {complete : List Statement}
    {opened : List OpenStatement} {id : BlockId} {ways waiting : List (Arrival × BlockId)}
    (harrived : g.Arrived starts fresh (opened.map (·.id)) ways waiting)
    (htargets : waiting.map (·.2) = pending ++ opened.flatMap (·.pending))
    (herror : g.build options fresh pending complete opened = .error (.shape (.cycle id))) :
    ∃ first second, first ≠ second ∧ g.Arrives starts first id ∧ g.Arrives starts second id := by
  fun_induction build g options fresh pending complete opened generalizing ways waiting with
  | case1 fresh complete id' pending opened hget ih =>
    obtain ⟨arrival, later, rfl, hlater⟩ := exists_way htargets
    exact ih harrived.pass hlater herror
  | case2 => cases herror
  | case3 fresh complete id' pending opened block hget hmem fields hfields ih =>
    obtain ⟨arrival, later, rfl, hlater⟩ := exists_way htargets
    refine ih (harrived.openStatement (Table.contains_of_get? hget) hmem) ?_ herror
    rw [List.map_append, hlater, Arrival.map_ofLink_snd]
    rfl
  | case4 fresh complete id' pending opened block hget hmem =>
    cases herror
    obtain ⟨arrival, later, rfl, -⟩ := exists_way htargets
    obtain ⟨first, hfirst, hwaiting⟩ := harrived.met _ (Table.contains_of_get? hget) hmem
    refine ⟨first, arrival, ?_, harrived.arrives _ hfirst,
      harrived.arrives _ (harrived.sublist.subset List.mem_cons_self)⟩
    rintro rfl
    exact hwaiting List.mem_cons_self
  | case5 => cases herror
  | case6 fresh complete o opened ih =>
    refine ih harrived.closeStatement ?_ herror
    rw [List.map_append, htargets, Arrival.map_ofLink_snd, successor?, Option.toList_map,
      List.flatMap_cons, List.append_assoc]
    rfl

/-- Before the loop starts, the starts themselves wait. -/
private theorem arrived_starts (g : Graph) (starts : List BlockId) :
    g.Arrived starts g.blocks.keys []
      (starts.zipIdx.map Arrival.ofStart) (starts.zipIdx.map Arrival.ofStart) where
  arrives way hway := by
    obtain ⟨⟨id, i⟩, hx, rfl⟩ := List.mem_map.1 hway
    exact .start (List.mem_zipIdx_iff_getElem?.1 hx)
  nodup := by
    rw [Arrival.map_ofStart_fst, List.zipIdx_map_snd]
    exact List.Nodup.map (fun _ _ => Arrival.start.inj) List.nodup_range'
  sublist := .refl _
  met id hblock hid := absurd (Table.mem_keys.2 hblock) hid
  followed k link hmem _ := by
    rw [Arrival.map_ofStart_fst] at hmem
    obtain ⟨_, -, hk⟩ := List.mem_map.1 hmem
    cases hk
  nodupFresh := g.blocks.nodup_keys
  nodupOpened := .nil
  openedBlocks := nofun

/-- From any starts in a graph of any shape, the loop ends, within a number of steps that the
    starts, the blocks and the links bound. A program that it gives is the graph unrolled from the
    starts, in which no block gives two statements; a cycle that it reports is at a block to which
    there are two ways from the starts. -/
theorem build_ends (g : Graph) (options : Options) (starts : List BlockId) :
    afterSteps (Building.step g options) (starts.length + g.blocks.size + g.links.size + 1)
        (g.building starts) = .inr (g.build options g.blocks.keys starts [] []) ∧
      (∀ program, g.build options g.blocks.keys starts [] [] = .ok program →
        ∃ order, g.Unrolls options starts order program ∧ order.Nodup ∧
          List.Forall₂ (g.IsStatementOf options) order program.statements) ∧
      ∀ id, g.build options g.blocks.keys starts [] [] = .error (.shape (.cycle id)) →
        ∃ first second, first ≠ second ∧
          g.Arrives starts first id ∧ g.Arrives starts second id := by
  refine ⟨?_, fun program hok => ?_, fun id herror => ?_⟩
  · exact g.afterSteps_building options starts
  · obtain ⟨order, hunrolls, hnodup, -⟩ := unrolls_of_build g.blocks.nodup_keys hok
    exact ⟨order, hunrolls, hnodup, hunrolls.statements⟩
  · refine arrives_twice_of_arrived (g.arrived_starts starts) ?_ herror
    rw [Arrival.map_ofStart_snd, List.flatMap_nil, List.append_nil]
    exact List.zipIdx_map_fst 0 starts

/-- The diamond with a second link from one of its blocks to a next one, back to the first block. -/
def fork : Graph := (diamond.drawLink ⟨⟨1⟩, .next, ⟨0⟩⟩).2

theorem build_fork :
    (fork.build {} fork.blocks.keys [⟨1⟩, ⟨9⟩] [] [] =
        .ok [.mk .ifThen [] none, .mk .captureImage [] none] ∧
      ∃ order, fork.Unrolls {} [⟨1⟩, ⟨9⟩] order [.mk .ifThen [] none, .mk .captureImage [] none] ∧
        order.Nodup) ∧
    fork.build {} fork.blocks.keys [⟨1⟩, ⟨2⟩] [] [] = .error (.shape (.cycle ⟨3⟩)) ∧
      ∃ first second, first ≠ second ∧
        fork.Arrives [⟨1⟩, ⟨2⟩] first ⟨3⟩ ∧ fork.Arrives [⟨1⟩, ⟨2⟩] second ⟨3⟩ := by
  have hok : fork.build {} fork.blocks.keys [⟨1⟩, ⟨9⟩] [] [] =
      .ok [.mk .ifThen [] none, .mk .captureImage [] none] := by cbv
  have herror : fork.build {} fork.blocks.keys [⟨1⟩, ⟨2⟩] [] [] =
      .error (.shape (.cycle ⟨3⟩)) := by cbv
  obtain ⟨order, hunrolls, hnodup, -⟩ := (build_ends fork {} [⟨1⟩, ⟨9⟩]).2.1 _ hok
  exact ⟨⟨hok, order, hunrolls, hnodup⟩, herror, (build_ends fork {} [⟨1⟩, ⟨2⟩]).2.2 _ herror⟩

end Graph

end CommandBlocks
