import CommandBlocks.Proofs.Program.Assembly
import CommandBlocks.Proofs.Program.Fields
import CommandBlocks.Proofs.Results

namespace CommandBlocks

open Relation

/-- What is smaller than a member of an ascending list stands before it. -/
theorem mem_before_of_lt {α : Type} {number : α → UInt64} {l before after : List α} {x y : α}
    (hascending : l.Pairwise fun x y => number x < number y) (hl : l = before ++ x :: after)
    (hmem : y ∈ l) (hlt : number y < number x) : y ∈ before := by
  rw [hl, List.pairwise_append, List.pairwise_cons] at hascending
  rw [hl, List.mem_append, List.mem_cons] at hmem
  obtain hbefore | rfl | hafter := hmem
  · exact hbefore
  · exact absurd hlt (UInt64.lt_irrefl _)
  · exact absurd (UInt64.lt_trans hlt (hascending.2.1.1 y hafter)) (UInt64.lt_irrefl _)

section Search

variable {successors : BlockId → List BlockId} {id : BlockId}

theorem not_transGen_of_acc (hacc : Acc (fun b a => b ∈ successors a) id) :
    ¬ TransGen (fun a b => b ∈ successors a) id id := by
  induction hacc with
  | intro id _ ih =>
    intro hcycle
    obtain ⟨next, hnext, hback⟩ := TransGen.head'_iff.1 hcycle
    exact ih next hnext (.tail' hback hnext)

/-- Every block of a trail but its start was met from a block further back. -/
private theorem Trail.Walked.start_or_met {later : List BlockId} {trail : Trail}
    (hwalked : Trail.Walked successors ((id, later) :: trail)) {earlier : BlockId}
    (hmem : earlier ∈ id :: trail.map (·.1)) :
    (id :: trail.map (·.1)).getLast? = some earlier ∨
      ∃ parent ∈ trail.map (·.1), earlier ∈ successors parent := by
  induction trail generalizing id later with
  | nil =>
    obtain rfl : earlier = id := by simpa using hmem
    exact .inl rfl
  | cons step trail ih =>
    obtain ⟨-, hstep, hrest⟩ := hwalked
    obtain rfl | hmem := List.mem_cons.1 hmem
    · exact .inr ⟨step.1, List.mem_cons_self, hstep step rfl⟩
    · obtain hstart | ⟨parent, hparent, hmet⟩ := ih hrest hmem
      · exact .inl hstart
      · exact .inr ⟨parent, List.mem_cons_of_mem _ hparent, hmet⟩

/-- If no block is the successor of two blocks, a search that closes a cycle closes it where it
    started. -/
theorem start_of_searchTrail_error
    (hunique : ∀ a b c, c ∈ successors a → c ∈ successors b → a = b) {fresh : List BlockId}
    {trail : Trail} (hwalked : Trail.Walked successors trail) (hnodup : (trail.map (·.1)).Nodup)
    (herror : searchTrail successors fresh trail = .error id) :
    (trail.map (·.1)).getLast? = some id := by
  fun_induction searchTrail successors fresh trail with
  | case1 fresh => cases herror
  | case2 fresh last trail ih =>
    have hstart := ih hwalked.2.2 (List.nodup_cons.1 hnodup).2 herror
    cases trail with
    | nil => cases hstart
    | cons step trail => exact hstart
  | case3 fresh last succ later trail hmem =>
    cases herror
    obtain hstart | ⟨parent, hparent, hmet⟩ := hwalked.start_or_met hmem
    · exact hstart
    · -- the trail would visit its last block twice
      obtain rfl := hunique last parent id (hwalked.1 List.mem_cons_self) hmet
      exact absurd hparent (List.nodup_cons.1 hnodup).1
  | case4 fresh last succ later trail hnew _ ih =>
    obtain ⟨hlater, hlast, hrest⟩ := hwalked
    have hpushed : Trail.Walked successors
        ((succ, successors succ) :: (last, later) :: trail) := by
      refine ⟨List.Subset.refl _, ?_, fun _ h => hlater (List.mem_cons_of_mem _ h), hlast, hrest⟩
      intro step hstep
      cases hstep
      exact hlater List.mem_cons_self
    exact ih hpushed (List.nodup_cons.2 ⟨hnew, hnodup⟩) herror
  | case5 fresh last succ later trail _ _ ih =>
    obtain ⟨hlater, hlast, hrest⟩ := hwalked
    exact ih ⟨fun _ h => hlater (List.mem_cons_of_mem _ h), hlast, hrest⟩ hnodup herror

/-- Under the same condition, what the search names is one of its starts, and those before it lead
    to no cycle. -/
theorem start_of_searchAll_error
    (hunique : ∀ a b c, c ∈ successors a → c ∈ successors b → a = b)
    {fresh starts : List BlockId} (hnodup : fresh.Nodup)
    (hdone : ∀ id, id ∉ fresh → Acc (fun b a => b ∈ successors a) id)
    (herror : searchAll successors fresh starts = .error id) :
    ∃ before after, starts = before ++ id :: after ∧
      ∀ other ∈ before, Acc (fun b a => b ∈ successors a) other := by
  fun_induction searchAll successors fresh starts with
  | case1 fresh => cases herror
  | case2 fresh start starts hfresh ih =>
    cases htrail : searchTrail successors (fresh.erase start) [(start, successors start)] with
    | error last =>
      rw [htrail] at herror
      cases herror
      have hwalked : Trail.Walked successors [(start, successors start)] :=
        ⟨List.Subset.refl _, by simp, trivial⟩
      have hstart := start_of_searchTrail_error hunique hwalked (List.nodup_singleton _) htrail
      obtain rfl : start = id := Option.some_inj.1 hstart
      exact ⟨[], starts, rfl, by simp⟩
    | ok rest =>
      rw [htrail] at herror
      have hlooked : Trail.LookedAt successors none [(start, successors start)] :=
        ⟨fun _ hsucc => .inl hsucc, trivial⟩
      obtain ⟨hsub, hrestDone⟩ := acc_of_searchTrail_ok
        (fun id herase hstart => hdone id fun hmem =>
          herase ((List.mem_erase_of_ne (by simpa using hstart)).2 hmem)) hlooked htrail
      have hrestNodup := (hsub.trans List.erase_sublist).nodup hnodup
      obtain ⟨before, after, rfl, hbefore⟩ := ih rest hrestNodup hrestDone herror
      refine ⟨start :: before, after, rfl, fun other hother => ?_⟩
      obtain rfl | hother := List.mem_cons.1 hother
      · exact hrestDone _ fun hmem => hnodup.not_mem_erase (hsub.subset hmem)
      · exact hbefore other hother
  | case3 fresh start starts hfresh ih =>
    obtain ⟨before, after, rfl, hbefore⟩ := ih hnodup hdone herror
    refine ⟨start :: before, after, rfl, fun other hother => ?_⟩
    obtain rfl | hother := List.mem_cons.1 hother
    · exact hdone _ hfresh
    · exact hbefore other hother

end Search

/-- An identifier that is found repeated occurs twice. -/
theorem two_le_count_of_firstRepeated {seen ids : List BlockId} {id : BlockId}
    (hrepeated : firstRepeated seen ids = some id) : 2 ≤ (seen ++ ids).count id := by
  induction ids generalizing seen with
  | nil => cases hrepeated
  | cons first rest ih =>
    rw [firstRepeated] at hrepeated
    by_cases hseen : first ∈ seen
    · rw [if_pos hseen] at hrepeated
      cases hrepeated
      have hpos := List.count_pos_iff.2 hseen
      rw [List.count_append, List.count_cons_self]
      omega
    · rw [if_neg hseen] at hrepeated
      rw [List.perm_middle.count_eq]
      exact ih hrepeated

namespace Graph

variable {g : Graph} {fault : ShapeFault}

/-- The fault of a graph that its checks find first. Faults of one kind come before those of another
    in the order of the constructors, each of which says that there is none of an earlier kind.
    Among blocks over their capacity, and among blocks on cycles, the one with the smallest
    identifier comes first. -/
inductive FirstFault (g : Graph) : ShapeFault → Prop where
  | severalParents {id : BlockId} (several : 2 ≤ (g.incoming id).length) :
    FirstFault g (.severalParents id)
  | severalSuccessors {id : BlockId} (oneParent : ∀ id, (g.incoming id).length ≤ 1)
      (several : 2 ≤ (g.outgoing id .next).length) :
    FirstFault g (.severalSuccessors id)
  | childrenNotAllowed {id : BlockId} {block : Block}
      (oneParent : ∀ id, (g.incoming id).length ≤ 1)
      (oneNext : ∀ id, (g.outgoing id .next).length ≤ 1)
      (atBlock : g.blocks.get? id = some block) (closed : block.kind.capacity = .closed)
      (several : 0 < (g.outgoing id .child).length)
      (first : ∀ x ∈ g.blocks.entries, x.1.number < id.number →
        x.2.kind.capacity.Holds (g.outgoing x.1 .child).length) :
    FirstFault g (.childrenNotAllowed id block.kind)
  | tooManyChildren {id : BlockId} {block : Block} {limit : Nat}
      (oneParent : ∀ id, (g.incoming id).length ≤ 1)
      (oneNext : ∀ id, (g.outgoing id .next).length ≤ 1)
      (atBlock : g.blocks.get? id = some block) (limited : block.kind.capacity = .atMost limit)
      (several : limit < (g.outgoing id .child).length)
      (first : ∀ x ∈ g.blocks.entries, x.1.number < id.number →
        x.2.kind.capacity.Holds (g.outgoing x.1 .child).length) :
    FirstFault g (.tooManyChildren id (g.outgoing id .child).length limit)
  | cycle {id : BlockId} (oneParent : ∀ id, (g.incoming id).length ≤ 1)
      (oneNext : ∀ id, (g.outgoing id .next).length ≤ 1)
      (capacity : ∀ x ∈ g.blocks.entries,
        x.2.kind.capacity.Holds (g.outgoing x.1 .child).length)
      (onCycle : TransGen g.Leads id id)
      (first : ∀ other, TransGen g.Leads other other → id.number ≤ other.number) :
    FirstFault g (.cycle id)

/-- At a block with several parents, at least two links end. -/
theorem two_le_of_severalParents? (hsome : g.severalParents? = some fault) :
    ∃ id, fault = .severalParents id ∧ 2 ≤ (g.incoming id).length := by
  rw [severalParents?, Option.map_eq_some_iff] at hsome
  obtain ⟨id, hrepeated, rfl⟩ := hsome
  have hcount := two_le_count_of_firstRepeated hrepeated
  rw [List.nil_append, List.count_eq_countP, Table.values, List.map_map, List.countP_map,
    List.countP_eq_length_filter] at hcount
  exact ⟨id, rfl, hcount⟩

/-- From a block with several next blocks, at least two links lead to next blocks. -/
theorem two_le_of_severalSuccessors? (hsome : g.severalSuccessors? = some fault) :
    ∃ id, fault = .severalSuccessors id ∧ 2 ≤ (g.outgoing id .next).length := by
  rw [severalSuccessors?, Option.map_eq_some_iff] at hsome
  obtain ⟨id, hrepeated, rfl⟩ := hsome
  have hcount := two_le_count_of_firstRepeated hrepeated
  rw [List.nil_append, List.count_eq_countP, List.countP_map, List.countP_eq_length_filter,
    Table.values, List.filter_map, List.filter_map, List.length_map, List.filter_filter] at hcount
  refine ⟨id, rfl, hcount.trans_eq ?_⟩
  congr 2
  funext x
  simp [Function.comp_def, beq_eq_decide]

/-- The block that is reported over its capacity is the first such block. -/
theorem WellFormed.first_of_overfull? (hg : g.WellFormed) (hsome : g.overfull? = some fault) :
    ∃ id block, g.blocks.get? id = some block ∧ excess? id block = some fault ∧
      ∀ x ∈ g.blocks.entries, x.1.number < id.number →
        x.2.kind.capacity.Holds (g.outgoing x.1 .child).length := by
  rw [overfull?, List.findSome?_eq_some_iff] at hsome
  obtain ⟨before, ⟨id, block⟩, after, hentries, hexcess, hbefore⟩ := hsome
  have hmem : (id, block) ∈ g.blocks.entries := by simp [hentries]
  refine ⟨id, block, Table.mem_entries_iff.1 hmem, hexcess, fun x hx hlt => ?_⟩
  rw [← hg.counts x hx]
  exact excess?_eq_none_iff.1
    (hbefore x (mem_before_of_lt g.blocks.number_ascending hentries hx hlt))

/-- While no block has several parents, the block that is reported to be on a cycle is the first
    such block. -/
theorem WellFormed.first_of_cycle? (hg : g.WellFormed)
    (hparent : ∀ id, (g.incoming id).length ≤ 1) (hsome : g.cycle? = some fault) :
    ∃ id, fault = .cycle id ∧ TransGen g.Leads id id ∧
      ∀ other, TransGen g.Leads other other → id.number ≤ other.number := by
  have hunique : ∀ a b c, c ∈ g.successors a → c ∈ g.successors b → a = b := by
    intro a b c ha hb
    exact leads_unique_of_oneParent hparent (mem_successors.1 ha) (mem_successors.1 hb)
  have hleaf : ∀ id, id ∉ g.blocks.keys → Acc (fun b a => b ∈ g.successors a) id :=
    fun _ hid => acc_of_not_mem_keys (fun x hx => (hg.ends x hx).1) hid
  rw [cycle?] at hsome
  cases hsearch : searchAll g.successors g.blocks.keys g.blocks.keys with
  | ok rest => simp [hsearch] at hsome
  | error id =>
    simp only [hsearch, Option.some.injEq] at hsome
    have hcycle := transGen_of_searchAll_error hsearch
    obtain ⟨before, after, hkeys, hbefore⟩ :=
      start_of_searchAll_error hunique g.blocks.nodup_keys hleaf hsearch
    rw [mem_successors_eq] at hcycle
    refine ⟨id, hsome.symm, hcycle, fun other hother => ?_⟩
    -- a smaller block comes before in the search, which has shown that it is on no cycle
    by_contra hnot
    obtain ⟨next, hnext, -⟩ := TransGen.head'_iff.1 hother
    have hkey : other ∈ g.blocks.keys := Table.mem_keys.2 (hg.contains_of_leads hnext).1
    have hmem := mem_before_of_lt g.blocks.keys_ascending hkeys hkey (UInt64.not_le.1 hnot)
    rw [← mem_successors_eq] at hother
    exact not_transGen_of_acc (hbefore other hmem) hother

/-- A fault that the checks find is the first that the graph has, and its block is one of the
    graph's. -/
theorem WellFormed.firstFault_of_shapeFault? (hg : g.WellFormed)
    (hsome : g.shapeFault? = some fault) :
    g.FirstFault fault ∧ g.blocks.contains fault.block = true := by
  simp only [shapeFault?, Option.orElse_eq_orElse, Option.orElse_eq_or, Option.or_eq_some_iff,
    severalParents?_eq_none_iff, severalSuccessors?_eq_none_iff, hg.overfull?_eq_none_iff]
    at hsome
  obtain hparents | ⟨hparent, hnexts | ⟨hnext, hoverfull | ⟨hcapacity, hcycle⟩⟩⟩ := hsome
  · obtain ⟨id, rfl, hseveral⟩ := two_le_of_severalParents? hparents
    obtain ⟨⟨k, link⟩, hmem⟩ := List.exists_mem_of_length_pos (Nat.zero_lt_of_lt hseveral)
    obtain ⟨hlink, rfl⟩ := mem_incoming.1 hmem
    exact ⟨.severalParents hseveral, hg.contains_target hlink⟩
  · obtain ⟨id, rfl, hseveral⟩ := two_le_of_severalSuccessors? hnexts
    obtain ⟨⟨k, link⟩, hmem⟩ := List.exists_mem_of_length_pos (Nat.zero_lt_of_lt hseveral)
    obtain ⟨hlink, rfl, -⟩ := mem_outgoing.1 hmem
    exact ⟨.severalSuccessors hparent hseveral, hg.contains_source hlink⟩
  · obtain ⟨id, block, hget, hexcess, hfirst⟩ := hg.first_of_overfull? hoverfull
    have hcount : block.childCount = (g.outgoing id .child).length :=
      hg.counts (id, block) (Table.mem_entries_iff.2 hget)
    rw [excess?, hcount] at hexcess
    cases hcapacity : block.kind.capacity with
    | closed =>
      simp only [hcapacity, Option.ite_none_right_eq_some, Option.some.injEq] at hexcess
      obtain ⟨hsome, rfl⟩ := hexcess
      exact ⟨.childrenNotAllowed hparent hnext hget hcapacity hsome hfirst,
        Table.contains_of_get? hget⟩
    | atMost limit =>
      simp only [hcapacity, Option.ite_none_right_eq_some, Option.some.injEq] at hexcess
      obtain ⟨hmany, rfl⟩ := hexcess
      exact ⟨.tooManyChildren hparent hnext hget hcapacity hmany hfirst,
        Table.contains_of_get? hget⟩
    | unbounded => simp [hcapacity] at hexcess
  · obtain ⟨id, rfl, honCycle, hfirst⟩ := hg.first_of_cycle? hparent hcycle
    obtain ⟨next, hleads, -⟩ := TransGen.head'_iff.1 honCycle
    exact ⟨.cycle hparent hnext hcapacity honCycle hfirst, (hg.contains_of_leads hleads).1⟩

/-- Compiling ends in a fault of the shape exactly when the checks find that fault. -/
theorem WellFormed.compile_eq_shape_iff (hg : g.WellFormed) {options : Options} :
    g.compile options = .error (.shape fault) ↔ g.shapeFault? = some fault := by
  cases hshape : g.shapeFault? with
  | none =>
    rw [compile_of_shaped hg (hg.shapeFault?_eq_none_iff.1 hshape)]
    refine ⟨fun herror => ?_, nofun⟩
    obtain ⟨cause, hcause⟩ := exists_of_mapError_eq_error herror
    cases hcause
  | some found => simp [compile, hshape]

/-- Whatever keeps a graph from being compiled is found at one of its blocks. -/
theorem WellFormed.contains_of_compile_eq_error (hg : g.WellFormed) {options : Options}
    {fault : CompileFault} (herror : g.compile options = .error fault) :
    g.blocks.contains fault.block = true := by
  cases fault with
  | shape fault => exact (hg.firstFault_of_shapeFault? (hg.compile_eq_shape_iff.1 herror)).2
  | input fault =>
    have hshape : g.shapeFault? = none := by
      rw [Option.eq_none_iff_forall_ne_some]
      intro found hfound
      rw [hg.compile_eq_shape_iff.2 hfound] at herror
      cases herror
    have hshaped := hg.shapeFault?_eq_none_iff.1 hshape
    have hreading : g.reading options hshaped.acyclic = .error fault := by
      rw [compile_of_shaped hg hshaped] at herror
      cases hread : g.reading options hshaped.acyclic with
      | ok program => simp [hread, Except.mapError] at herror
      | error cause => simpa [hread, Except.mapError] using herror
    -- the fault is that of the first block at fault in reading order
    rw [← faultOf?_eq_some_iff, faultOf?_reading hg, List.findSome?_eq_some_iff] at hreading
    obtain ⟨_, id, _, -, hid, -⟩ := hreading
    obtain ⟨block, hget, hfields⟩ := Option.bind_eq_some_iff.1 hid
    have hblock : fault.block = id :=
      Block.block_of_fields_eq_error (faultOf?_eq_some_iff.1 hfields)
    rw [CompileFault.block, hblock]
    exact Table.contains_of_get? hget

/-- A graph is refused for its shape, under any options, exactly if its shape is not the right
    one. -/
theorem WellFormed.exists_compile_eq_shape_iff (hg : g.WellFormed) (options : Options) :
    (∃ fault, g.compile options = .error (.shape fault)) ↔ ¬ g.Shaped := by
  simp only [hg.compile_eq_shape_iff]
  rw [← Option.ne_none_iff_exists', Ne, hg.shapeFault?_eq_none_iff]

/-- The checks find no fault exactly in the graphs with the shape that compiling needs. Otherwise
    they, and compiling with them, report the first fault that the graph has, at a block of the
    graph. -/
theorem shapeFault?_reports_firstFault (hg : g.WellFormed) :
    (g.shapeFault? = none ↔ g.Shaped) ∧
    (∀ fault, g.shapeFault? = some fault →
      g.FirstFault fault ∧ g.blocks.contains fault.block = true) ∧
    ∀ options fault, g.compile options = .error (.shape fault) ↔ g.shapeFault? = some fault :=
  ⟨hg.shapeFault?_eq_none_iff, fun _ hsome => hg.firstFault_of_shapeFault? hsome,
    fun _ _ => hg.compile_eq_shape_iff⟩

/-- Two blocks that repeat each other's chains, apart from a chain that starts at a root. -/
def circlingLoops : Graph where
  blocks := .ofList [(⟨0⟩, { kind := .waitSeconds }), (⟨1⟩, { kind := .captureImage }),
    (⟨2⟩, { kind := .gpioWrite }), (⟨3⟩, { kind := .repeatTimes, childCount := 1 }),
    (⟨5⟩, { kind := .repeatTimes, childCount := 1 })]
  links := .ofList [(⟨0⟩, ⟨⟨5⟩, .child, ⟨2⟩⟩), (⟨1⟩, ⟨⟨0⟩, .next, ⟨1⟩⟩),
    (⟨2⟩, ⟨⟨2⟩, .next, ⟨3⟩⟩), (⟨4⟩, ⟨⟨3⟩, .child, ⟨5⟩⟩)]
  nextBlock := ⟨6⟩
  nextLink := ⟨5⟩

theorem firstFault_circlingLoops : circlingLoops.WellFormed ∧
    circlingLoops.shapeFault? = some (.cycle ⟨2⟩) ∧ circlingLoops.FirstFault (.cycle ⟨2⟩) := by
  have hg : circlingLoops.WellFormed := ⟨by decide, by decide⟩
  have hshape : circlingLoops.shapeFault? = some (.cycle ⟨2⟩) := by cbv
  exact ⟨hg, hshape, ((shapeFault?_reports_firstFault hg).2.1 _ hshape).1⟩

end Graph

end CommandBlocks
