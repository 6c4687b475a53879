import CommandBlocks.Proofs.Graph.Sound
import CommandBlocks.Proofs.Results
import CommandBlocks.Snapshot

namespace CommandBlocks

theorem Id.toNat_max {named : Named} (i j : Id named) :
    (max i j).number.toNat = max i.number.toNat j.number.toNat := by
  change (max i.number j.number).toNat = _
  rw [UInt64.max_def]
  by_cases hle : i.number ≤ j.number
  · rw [if_pos hle, Nat.max_eq_right (UInt64.le_iff_toNat_le.1 hle)]
  · rw [if_neg hle, Nat.max_eq_left (Nat.le_of_not_le fun h => hle (UInt64.le_iff_toNat_le.2 h))]

/-- The range of restored graphs has 63 bits. -/
theorem le_maxRestoredId_iff {n : UInt64} : n ≤ maxRestoredId ↔ n.toNat < 2 ^ 63 := by
  have hmax : maxRestoredId.toNat = 2 ^ 63 - 1 := rfl
  rw [UInt64.le_iff_toNat_le, hmax]
  omega

/-- A counter is taken over if it is in the range of restored graphs. -/
theorem Id.asCounter_eq_ok_iff {named : Named} {i next : Id named} :
    i.asCounter = .ok next ↔ i.number.toNat < 2 ^ 63 ∧ next = i := by
  rw [Id.asCounter, ite_eq_ok_iff, le_maxRestoredId_iff]

theorem Id.asCounter_of_lt {named : Named} {i : Id named} (hlt : maxRestoredId < i.number) :
    i.asCounter = .error (.idOutOfRange i.number) := by
  rw [Id.asCounter, if_neg (UInt64.not_le.2 hlt)]

/-- An identifier is taken over if the one after it is in the range of restored graphs, too. -/
theorem Id.nextCounter_eq_ok_iff {named : Named} {i next : Id named} :
    i.nextCounter = .ok next ↔ i.number.toNat + 1 < 2 ^ 63 ∧ next = i.next := by
  have hmax : maxRestoredId.toNat = 2 ^ 63 - 1 := rfl
  rw [Id.nextCounter, ite_eq_ok_iff, UInt64.lt_iff_toNat_lt, hmax]
  refine and_congr_left fun _ => ?_
  omega

/-- A counter that a restored graph may have is above every identifier in a table. -/
structure CountsOn {named : Named} {α : Type} (next : Id named) (table : Table (Id named) α) :
    Prop where
  below : ∀ id, table.contains id = true → id.number < next.number
  bounded : next.number.toNat < 2 ^ 63

/-- A counter that has been moved above a new identifier is above all of the table with it. -/
theorem CountsOn.insert {named : Named} {α : Type} {next following id : Id named}
    {table : Table (Id named) α} (hnext : CountsOn next table)
    (hfollowing : id.nextCounter = .ok following) (a : α) :
    CountsOn (max next following) (table.insert id a) := by
  obtain ⟨hroom, rfl⟩ := Id.nextCounter_eq_ok_iff.1 hfollowing
  have hid : id.next.number.toNat = id.number.toNat + 1 := Id.toNat_next (by omega)
  have hbounded := hnext.bounded
  constructor
  · intro other hother
    rw [Id.number_lt_iff, Id.toNat_max, hid]
    rw [Table.contains_insert] at hother
    obtain rfl | hother := hother
    · omega
    · have hbelow := Id.number_lt_iff.1 (hnext.below other hother)
      omega
  · rw [Id.toNat_max, hid]
    omega

namespace Snapshot

variable {r : BlockRecord} {s : Snapshot}

/-- Values that are restored are declared by the kind of their block. -/
theorem restoreValues_declared {id : BlockId} {kind : Kind} {values : List (String × Value)}
    {table : Table Parameter Value} (hvalues : restoreValues id kind values = .ok table) :
    ({ kind, values := table } : Block).Declared := by
  unfold restoreValues at hvalues
  refine foldlM_induction (motive := fun _ table => ({ kind, values := table } : Block).Declared)
    ?_ ?_ hvalues
  · intro x _ table next hdeclared hstep
    cases hinput : kind.inputNamed? x.1 with
    | none => simp [hinput] at hstep
    | some input =>
      simp only [hinput, Except.ok.injEq] at hstep
      rw [← hstep]
      exact hdeclared.insert hinput x.2
  · intro parameter value hget
    cases hget

/-- A record of a block is restored if it leaves room in the range, is the first one of its
    identifier and has declared values. -/
theorem restoreBlock_eq_ok_iff {done next : Table BlockId Block × BlockId} :
    restoreBlock done r = .ok next ↔ ∃ following, r.id.nextCounter = .ok following ∧
      ¬ done.1.contains r.id = true ∧ ∃ values, restoreValues r.id r.kind r.values = .ok values ∧
      (done.1.insert r.id { kind := r.kind, values }, max done.2 following) = next := by
  simp only [restoreBlock, bind_eq_ok_iff, throw_or_eq_ok_iff, pure, Except.pure, Except.ok.injEq]

/-- A record of a link is restored if it leaves room in the range, is the first one of its
    identifier and has blocks for its ends. -/
theorem restoreLink_eq_ok_iff {q : LinkRecord} {blocks : Table BlockId Block}
    {done next : Table LinkId Link × LinkId} :
    restoreLink blocks done q = .ok next ↔ ∃ following, q.id.nextCounter = .ok following ∧
      ¬ done.1.contains q.id = true ∧ blocks.contains q.link.source = true ∧
      blocks.contains q.link.target = true ∧
      (done.1.insert q.id q.link, max done.2 following) = next := by
  simp only [restoreLink, bind_eq_ok_iff, throw_or_eq_ok_iff, pure, Except.pure, Except.ok.injEq,
    Bool.not_eq_true', Bool.not_eq_false]

/-- A snapshot is restored counter by counter and record by record, and the child counts are counted
    in the end. -/
theorem restore_eq_ok_iff {g : Graph} :
    s.restore = .ok g ↔ s.nextBlock.number.toNat < 2 ^ 63 ∧
      ∃ blocks, s.blocks.foldlM restoreBlock (∅, s.nextBlock) = .ok blocks ∧
      s.nextLink.number.toNat < 2 ^ 63 ∧
      ∃ links, s.links.foldlM (restoreLink blocks.1) (∅, s.nextLink) = .ok links ∧
      Graph.recount ⟨blocks.1, links.1, blocks.2, links.2⟩ = g := by
  simp only [restore, bind_eq_ok_iff, Id.asCounter_eq_ok_iff, pure, Except.pure, Except.ok.injEq,
    and_assoc, exists_and_left, exists_eq_left]

private theorem countsOn_empty {named : Named} {α : Type} {next : Id named}
    (hbounded : next.number.toNat < 2 ^ 63) : CountsOn next (∅ : Table (Id named) α) := by
  refine ⟨fun id hid => ?_, hbounded⟩
  cases hid

/-- The counter is above all blocks that were restored, and these have declared values. -/
theorem countsOn_of_restoreBlocks {records : List BlockRecord} {counter : BlockId}
    {blocks : Table BlockId Block × BlockId} (hcounter : counter.number.toNat < 2 ^ 63)
    (hblocks : records.foldlM restoreBlock (∅, counter) = .ok blocks) :
    CountsOn blocks.2 blocks.1 ∧ ∀ id block, blocks.1.get? id = some block → block.Declared := by
  refine foldlM_induction (motive := fun _ done => CountsOn done.2 done.1 ∧
    ∀ id block, done.1.get? id = some block → block.Declared) ?_ ?_ hblocks
  · rintro r _ done next ⟨hnumbers, hdeclared⟩ hstep
    obtain ⟨following, hfollowing, -, values, hvalues, rfl⟩ := restoreBlock_eq_ok_iff.1 hstep
    refine ⟨hnumbers.insert hfollowing _, fun id block hget => ?_⟩
    obtain ⟨-, rfl⟩ | ⟨-, hold⟩ := Table.get?_insert_eq_some.1 hget
    · exact restoreValues_declared hvalues
    · exact hdeclared id block hold
  · refine ⟨countsOn_empty hcounter, fun id block hget => ?_⟩
    cases hget

theorem countsOn_of_restoreLinks {records : List LinkRecord} {counter : LinkId}
    {blocks : Table BlockId Block} {links : Table LinkId Link × LinkId}
    (hcounter : counter.number.toNat < 2 ^ 63)
    (hlinks : records.foldlM (restoreLink blocks) (∅, counter) = .ok links) :
    CountsOn links.2 links.1 ∧ ∀ id link, links.1.get? id = some link →
      blocks.contains link.source = true ∧ blocks.contains link.target = true := by
  refine foldlM_induction (motive := fun _ done => CountsOn done.2 done.1 ∧
    ∀ id link, done.1.get? id = some link →
      blocks.contains link.source = true ∧ blocks.contains link.target = true) ?_ ?_ hlinks
  · rintro q _ done next ⟨hnumbers, hends⟩ hstep
    obtain ⟨following, hfollowing, -, hsource, htarget, rfl⟩ := restoreLink_eq_ok_iff.1 hstep
    refine ⟨hnumbers.insert hfollowing _, fun id link hget => ?_⟩
    obtain ⟨-, rfl⟩ | ⟨-, hold⟩ := Table.get?_insert_eq_some.1 hget
    · exact ⟨hsource, htarget⟩
    · exact hends id link hold
  · refine ⟨countsOn_empty hcounter, fun id link hget => ?_⟩
    cases hget

/-- Every graph that is restored is sound, whatever its snapshot breaks of the rules for links, and
    its counters are in the range of restored graphs. -/
theorem sound_of_restore {g : Graph} (hrestore : s.restore = .ok g) :
    g.Sound ∧ g.nextBlock.number.toNat < 2 ^ 63 ∧ g.nextLink.number.toNat < 2 ^ 63 := by
  obtain ⟨hnextBlock, blocks, hblocks, hnextLink, links, hlinks, rfl⟩ :=
    restore_eq_ok_iff.1 hrestore
  obtain ⟨hblockCounter, hdeclared⟩ := countsOn_of_restoreBlocks hnextBlock hblocks
  obtain ⟨hlinkCounter, hends⟩ := countsOn_of_restoreLinks hnextLink hlinks
  refine ⟨?_, hblockCounter.bounded, hlinkCounter.bounded⟩
  apply Graph.sound_recountWhere
  · apply Graph.wellFormed_recountWhere hends
    intro id block _ hcounted
    cases hcounted
  · exact hdeclared
  · exact hblockCounter.below
  · exact hlinkCounter.below

end Snapshot

namespace Graph

variable {g h : Graph}

/-- The values of a block are restored from their listing. -/
theorem restoreValues_entries {id : BlockId} {block : Block} (hblock : block.Declared) :
    Snapshot.restoreValues id block.kind
      (block.values.entries.map fun x => (x.1.name, x.2)) = .ok block.values := by
  rw [Snapshot.restoreValues, List.foldlM_map]
  refine Table.foldlM_entries (fun table => table) ?_
  intro filled parameter value hget _
  obtain ⟨input, hinput⟩ := Option.isSome_iff_exists.1 (hblock parameter value hget)
  have hparameter : input.parameter = parameter :=
    Parameter.name_inj (Kind.name_of_inputNamed? hinput)
  simp only [hinput, hparameter]

/-- A counter that is above an identifier already stays as it is. -/
private theorem max_next_of_lt {named : Named} {i next : Id named} (hlt : i.number < next.number) :
    max next i.next = next := by
  apply Id.number_inj
  apply UInt64.toNat_inj.1
  have hbelow := Id.number_lt_iff.1 hlt
  have hnext := next.number.toNat_lt
  rw [Id.toNat_max, Id.toNat_next (by omega)]
  omega

/-- The blocks of a graph as they are restored, before their child counts are counted anew. -/
def uncounted (g : Graph) : Table BlockId Block :=
  g.blocks.map fun _ block => { block with childCount := 0 }

theorem of_get?_uncounted {id : BlockId} {block : Block}
    (hget : g.uncounted.get? id = some block) :
    ∃ old, g.blocks.get? id = some old ∧ { old with childCount := 0 } = block := by
  rwa [uncounted, Table.get?_map, Option.map_eq_some_iff] at hget

/-- The blocks of a sound graph are restored from their records, still without their child
    counts. -/
private theorem foldlM_restoreBlock (hg : g.Sound) (hcounter : g.nextBlock.number.toNat < 2 ^ 63) :
    g.snapshot.blocks.foldlM Snapshot.restoreBlock (∅, g.nextBlock) =
      .ok (g.uncounted, g.nextBlock) := by
  have hrecords : g.snapshot.blocks = g.uncounted.entries.map fun x =>
      ⟨x.1, x.2.kind, x.2.values.entries.map fun y => (y.1.name, y.2)⟩ := by
    rw [uncounted, Table.map, List.map_map]
    rfl
  rw [hrecords, List.foldlM_map]
  refine Table.foldlM_entries (fun blocks => (blocks, g.nextBlock)) ?_
  intro filled id block hget hnew
  obtain ⟨old, hold, rfl⟩ := of_get?_uncounted hget
  have hbelow := hg.blockBelow id (Table.contains_of_get? hold)
  have hnumber := Id.number_lt_iff.1 hbelow
  have hroom : id.number.toNat + 1 < 2 ^ 63 := by omega
  refine Snapshot.restoreBlock_eq_ok_iff.2 ⟨id.next, ?_, ?_, old.values, ?_, ?_⟩
  · exact Id.nextCounter_eq_ok_iff.2 ⟨hroom, rfl⟩
  · exact Table.get?_eq_none_iff.1 hnew
  · exact restoreValues_entries (hg.declared id old hold)
  · simp only [max_next_of_lt hbelow]

private theorem foldlM_restoreLink (hg : g.Sound) (hcounter : g.nextLink.number.toNat < 2 ^ 63) :
    g.snapshot.links.foldlM (Snapshot.restoreLink g.uncounted) (∅, g.nextLink) =
      .ok (g.links, g.nextLink) := by
  have hcontains : ∀ id, g.blocks.contains id = true → g.uncounted.contains id = true := by
    intro id hid
    rwa [uncounted, Table.contains_map]
  rw [snapshot, List.foldlM_map]
  refine Table.foldlM_entries (fun links => (links, g.nextLink)) ?_
  intro filled id link hget hnew
  have hbelow := hg.linkBelow id (Table.contains_of_get? hget)
  have hnumber := Id.number_lt_iff.1 hbelow
  have hroom : id.number.toNat + 1 < 2 ^ 63 := by omega
  refine Snapshot.restoreLink_eq_ok_iff.2 ⟨id.next, ?_, ?_, ?_, ?_, ?_⟩
  · exact Id.nextCounter_eq_ok_iff.2 ⟨hroom, rfl⟩
  · exact Table.get?_eq_none_iff.1 hnew
  · exact hcontains _ (hg.contains_source hget)
  · exact hcontains _ (hg.contains_target hget)
  · rw [max_next_of_lt hbelow]

/-- Counting gives the blocks of a sound graph their child counts back. -/
private theorem recount_uncounted (hg : g.Sound) :
    Graph.recount ⟨g.uncounted, g.links, g.nextBlock, g.nextLink⟩ = g := by
  have hblocks : recountWhere g.uncounted g.links (fun _ => true) = g.blocks := by
    apply Table.eq_of_get?
    intro id
    rw [get?_recountWhere, uncounted, Table.get?_map]
    cases hget : g.blocks.get? id with
    | none => rfl
    | some block =>
      have hcount := hg.childCount_eq hget
      simp [← hcount]
  rw [recount, hblocks]

/-- A sound graph whose counters are in range is restored from its snapshot as it was. -/
theorem Sound.restore_snapshot (hg : g.Sound) (hblock : g.nextBlock.number.toNat < 2 ^ 63)
    (hlink : g.nextLink.number.toNat < 2 ^ 63) : g.snapshot.restore = .ok g := by
  rw [Snapshot.restore_eq_ok_iff]
  exact ⟨hblock, _, foldlM_restoreBlock hg hblock, hlink, _, foldlM_restoreLink hg hlink,
    recount_uncounted hg⟩

/-- All that may keep a sound graph from being restored from its snapshot are counters out of range,
    of which that of the blocks is looked at first. -/
theorem Sound.restore_snapshot_eq (hg : g.Sound) :
    g.snapshot.restore =
      if maxRestoredId < g.nextBlock.number then .error (.idOutOfRange g.nextBlock.number)
      else if maxRestoredId < g.nextLink.number then .error (.idOutOfRange g.nextLink.number)
      else .ok g := by
  have hsnapshotBlock : g.snapshot.nextBlock = g.nextBlock := rfl
  have hsnapshotLink : g.snapshot.nextLink = g.nextLink := rfl
  by_cases hblock : maxRestoredId < g.nextBlock.number
  · rw [if_pos hblock, Snapshot.restore, hsnapshotBlock, Id.asCounter_of_lt hblock]
    rfl
  · have hblockBound := le_maxRestoredId_iff.1 (UInt64.not_lt.1 hblock)
    rw [if_neg hblock]
    by_cases hlink : maxRestoredId < g.nextLink.number
    · have hcounter : g.nextBlock.asCounter = .ok g.nextBlock :=
        Id.asCounter_eq_ok_iff.2 ⟨hblockBound, rfl⟩
      rw [if_pos hlink, Snapshot.restore, hsnapshotBlock, hcounter]
      simp only [bind, Except.bind]
      rw [foldlM_restoreBlock hg hblockBound, hsnapshotLink, Id.asCounter_of_lt hlink]
    · rw [if_neg hlink]
      exact hg.restore_snapshot hblockBound (le_maxRestoredId_iff.1 (UInt64.not_lt.1 hlink))

/-- A sound graph is never restored as another one. -/
theorem Sound.eq_of_restore_snapshot (hg : g.Sound) (hrestore : g.snapshot.restore = .ok h) :
    h = g := by
  obtain ⟨hblock, _, _, hlink, _⟩ := Snapshot.restore_eq_ok_iff.1 hrestore
  have hsame := hg.restore_snapshot hblock hlink
  rw [hrestore, Except.ok.injEq] at hsame
  exact hsame

end Graph

end CommandBlocks
