import CommandBlocks.Proofs.Snapshot.Restore
import Mathlib.Data.List.Perm.Basic

namespace CommandBlocks

theorem le_maxRestoredId_sub_one_iff {n : UInt64} :
    n ≤ maxRestoredId - 1 ↔ n.toNat + 1 < 2 ^ 63 := by
  have hmax : (maxRestoredId - 1).toNat = 2 ^ 63 - 2 := rfl
  rw [UInt64.le_iff_toNat_le, hmax]
  omega

/-- The greatest of a counter and of the numbers that follow some identifiers. -/
def Id.counterAbove {named : Named} (counter : Id named) (ids : List (Id named)) : Id named :=
  ⟨.ofNat ((ids.map (·.number.toNat + 1)).foldl max counter.number.toNat)⟩

section Counters

variable {named : Named} {counter id : Id named} {ids : List (Id named)}

@[simp] theorem Id.counterAbove_nil (counter : Id named) : counter.counterAbove [] = counter :=
  Id.number_inj UInt64.ofNat_toNat

/-- Counting above an identifier and then above others is counting above all of them. -/
theorem Id.counterAbove_cons (hroom : id.number.toNat + 1 < 2 ^ 63) :
    counter.counterAbove (id :: ids) = (max counter id.next).counterAbove ids := by
  rw [counterAbove, counterAbove, List.map_cons, List.foldl_cons, Id.toNat_max,
    Id.toNat_next (by omega)]

/-- The counter above identifiers does not depend on their order. -/
theorem Id.counterAbove_perm {others : List (Id named)} (hperm : ids.Perm others) :
    counter.counterAbove ids = counter.counterAbove others := by
  rw [counterAbove, counterAbove, (hperm.map _).foldl_eq]

end Counters

section Numbered

variable {ρ α : Type} {named : Named}

/-- Records can be added to those gathered before: their identifiers are in range, differ and are
    not met before, and each of them fits. -/
structure Gatherable (id : ρ → Id named) (fits : ρ → Prop) (done : Table (Id named) α)
    (records : List ρ) : Prop where
  inRange : ∀ r ∈ records, (id r).number.toNat + 1 < 2 ^ 63
  fitting : ∀ r ∈ records, fits r
  distinct : (records.map id).Nodup
  fresh : ∀ r ∈ records, ¬ done.contains (id r) = true

variable {id : ρ → Id named} {content : ρ → α} {fits : ρ → Prop} {done : Table (Id named) α}
  {r : ρ} {records : List ρ}

/-- Records can be gathered if the first one can, and then the others beside it. -/
theorem gatherable_cons_iff {a : α} : Gatherable id fits done (r :: records) ↔
    (id r).number.toNat + 1 < 2 ^ 63 ∧ fits r ∧ ¬ done.contains (id r) = true ∧
      Gatherable id fits (done.insert (id r) a) records := by
  constructor
  · rintro ⟨hrange, hfits, hdistinct, hfresh⟩
    rw [List.forall_mem_cons] at hrange hfits hfresh
    rw [List.map_cons, List.nodup_cons] at hdistinct
    refine ⟨hrange.1, hfits.1, hfresh.1, hrange.2, hfits.2, hdistinct.2, fun q hq => ?_⟩
    rw [Table.contains_insert]
    rintro (heq | hold)
    · exact hdistinct.1 (List.mem_map.2 ⟨q, hq, heq⟩)
    · exact hfresh.2 q hq hold
  · rintro ⟨hrange, hfits, hnew, hrest⟩
    refine ⟨List.forall_mem_cons.2 ⟨hrange, hrest.inRange⟩,
      List.forall_mem_cons.2 ⟨hfits, hrest.fitting⟩, ?_,
      List.forall_mem_cons.2 ⟨hnew, fun q hq hold => ?_⟩⟩
    · rw [List.map_cons, List.nodup_cons]
      refine ⟨fun hmem => ?_, hrest.distinct⟩
      obtain ⟨q, hq, heq⟩ := List.mem_map.1 hmem
      exact hrest.fresh q hq (Table.contains_insert.2 (.inl heq))
    · exact hrest.fresh q hq (Table.contains_insert.2 (.inr hold))

/-- Records with identifiers are gathered one after the other exactly if they can be added. The
    counter is then above them, and the records stand under their identifiers. -/
theorem foldlM_numbered_eq_ok_iff
    {step : Table (Id named) α × Id named → ρ → Except GraphFault (Table (Id named) α × Id named)}
    (hstep : ∀ done r next, step done r = .ok next ↔
      ∃ following, (id r).nextCounter = .ok following ∧ ¬ done.1.contains (id r) = true ∧ fits r ∧
        (done.1.insert (id r) (content r), max done.2 following) = next)
    {counter : Id named} {next : Table (Id named) α × Id named} :
    records.foldlM step (done, counter) = .ok next ↔ Gatherable id fits done records ∧
      next = (records.foldl (fun t r => t.insert (id r) (content r)) done,
        counter.counterAbove (records.map id)) := by
  induction records generalizing done counter with
  | nil =>
    have hnil : Gatherable id fits done [] := ⟨nofun, nofun, .nil, nofun⟩
    rw [List.foldlM_nil, and_iff_right hnil, List.map_nil, Id.counterAbove_nil, List.foldl_nil]
    exact ⟨fun hok => (Except.ok.inj hok).symm, fun heq => heq ▸ rfl⟩
  | cons r records ih =>
    rw [List.foldlM_cons, bind_eq_ok_iff, List.map_cons, List.foldl_cons,
      gatherable_cons_iff (a := content r)]
    constructor
    · rintro ⟨middle, hmiddle, hrest⟩
      obtain ⟨following, hfollowing, hnew, hfits, rfl⟩ := (hstep _ _ _).1 hmiddle
      obtain ⟨hroom, rfl⟩ := Id.nextCounter_eq_ok_iff.1 hfollowing
      obtain ⟨hgatherable, rfl⟩ := ih.1 hrest
      exact ⟨⟨hroom, hfits, hnew, hgatherable⟩, by rw [Id.counterAbove_cons hroom]⟩
    · rintro ⟨⟨hroom, hfits, hnew, hgatherable⟩, rfl⟩
      refine ⟨_, (hstep _ _ _).2 ⟨_, Id.nextCounter_eq_ok_iff.2 ⟨hroom, rfl⟩, hnew, hfits, rfl⟩, ?_⟩
      exact ih.2 ⟨hgatherable, by rw [Id.counterAbove_cons hroom]⟩

/-- The table of records has the identifiers of the records as its keys. -/
theorem contains_numbered_iff (hdistinct : (records.map id).Nodup) {k : Id named} :
    (Table.ofList (records.map fun r => (id r, content r))).contains k = true ↔
      ∃ r ∈ records, id r = k := by
  have hkeys : (records.map fun r => (id r, content r)).map (·.1) = records.map id := by
    rw [List.map_map]
    rfl
  rw [Table.contains_ofList_iff (hkeys ▸ hdistinct), hkeys, List.mem_map]

end Numbered

section Values

/-- Values entered under the parameters of their names, each over what was there before. -/
def Table.enterNamed (table : Table Parameter Value) (values : List (String × Value)) :
    Table Parameter Value :=
  values.foldl (fun table x =>
    match Parameter.ofName? x.1 with
    | none => table
    | some parameter => table.insert parameter x.2) table

/-- Values are restored if all of their names are declared, the last one of each name. -/
theorem Snapshot.restoreValues_eq_ok_iff {id : BlockId} {kind : Kind}
    {values : List (String × Value)} {table : Table Parameter Value} :
    restoreValues id kind values = .ok table ↔
      (∀ x ∈ values, kind.Declares x.1) ∧ table = Table.enterNamed ∅ values := by
  rw [restoreValues]
  generalize (∅ : Table Parameter Value) = start
  induction values generalizing start with
  | nil =>
    rw [List.foldlM_nil, and_iff_right (List.forall_mem_nil _)]
    exact ⟨fun hok => (Except.ok.inj hok).symm, fun heq => heq ▸ rfl⟩
  | cons x values ih =>
    obtain ⟨name, value⟩ := x
    rw [List.foldlM_cons, List.forall_mem_cons]
    cases hinput : kind.inputNamed? name with
    | none =>
      have hundeclared := Kind.inputNamed?_eq_none_iff.1 hinput
      simp [hinput, hundeclared, bind, Except.bind]
    | some input =>
      have hdeclared : kind.Declares name := by
        by_contra hundeclared
        rw [Kind.inputNamed?_eq_none_iff.2 hundeclared] at hinput
        cases hinput
      have hparameter : Parameter.ofName? name = some input.parameter :=
        Parameter.ofName?_eq_some_iff.2 (Kind.name_of_inputNamed? hinput)
      rw [and_iff_right hdeclared, Table.enterNamed, List.foldl_cons]
      simp only [hinput, hparameter]
      exact ih _

end Values

/-- The block of a record, before the blocks nested in it are counted. -/
def BlockRecord.block (r : BlockRecord) : Block :=
  { kind := r.kind, values := Table.enterNamed ∅ r.values }

namespace Snapshot

/-- What a snapshot must fulfil to be restored. -/
structure Restorable (s : Snapshot) : Prop where
  blockCounter : s.nextBlock.number ≤ maxRestoredId
  linkCounter : s.nextLink.number ≤ maxRestoredId
  blockIds : ∀ r ∈ s.blocks, r.id.number ≤ maxRestoredId - 1
  linkIds : ∀ r ∈ s.links, r.id.number ≤ maxRestoredId - 1
  blocksDistinct : (s.blocks.map (·.id)).Nodup
  linksDistinct : (s.links.map (·.id)).Nodup
  declared : ∀ r ∈ s.blocks, ∀ x ∈ r.values, r.kind.Declares x.1
  ends : ∀ r ∈ s.links,
    (∃ q ∈ s.blocks, q.id = r.link.source) ∧ ∃ q ∈ s.blocks, q.id = r.link.target

instance (s : Snapshot) : Decidable s.Restorable :=
  decidable_of_iff (s.nextBlock.number ≤ maxRestoredId ∧ s.nextLink.number ≤ maxRestoredId ∧
      (∀ r ∈ s.blocks, r.id.number ≤ maxRestoredId - 1) ∧
      (∀ r ∈ s.links, r.id.number ≤ maxRestoredId - 1) ∧
      (s.blocks.map (·.id)).Nodup ∧ (s.links.map (·.id)).Nodup ∧
      (∀ r ∈ s.blocks, ∀ x ∈ r.values, r.kind.Declares x.1) ∧
      ∀ r ∈ s.links,
        (∃ q ∈ s.blocks, q.id = r.link.source) ∧ ∃ q ∈ s.blocks, q.id = r.link.target)
    ⟨fun ⟨h₁, h₂, h₃, h₄, h₅, h₆, h₇, h₈⟩ => ⟨h₁, h₂, h₃, h₄, h₅, h₆, h₇, h₈⟩,
      fun h => ⟨h.1, h.2, h.3, h.4, h.5, h.6, h.7, h.8⟩⟩

/-- The graph of a snapshot's records, whatever it fulfils. -/
def restored (s : Snapshot) : Graph :=
  Graph.recount {
    blocks := .ofList (s.blocks.map fun r => (r.id, r.block))
    links := .ofList (s.links.map fun r => (r.id, r.link))
    nextBlock := s.nextBlock.counterAbove (s.blocks.map (·.id))
    nextLink := s.nextLink.counterAbove (s.links.map (·.id)) }

/-- Records of blocks are restored if they can be gathered with declared values, whatever their
    order. -/
theorem foldlM_restoreBlock_eq_ok_iff {records : List BlockRecord} {counter : BlockId}
    {next : Table BlockId Block × BlockId} :
    records.foldlM restoreBlock (∅, counter) = .ok next ↔
      Gatherable (·.id) (fun r => ∀ x ∈ r.values, r.kind.Declares x.1)
        (∅ : Table BlockId Block) records ∧
      next = (.ofList (records.map fun r => (r.id, r.block)),
        counter.counterAbove (records.map (·.id))) := by
  rw [Table.ofList, List.foldl_map]
  refine foldlM_numbered_eq_ok_iff fun done r next => ?_
  simp only [restoreBlock_eq_ok_iff, restoreValues_eq_ok_iff, BlockRecord.block]
  refine exists_congr fun following => and_congr_right fun _ => and_congr_right fun _ => ?_
  constructor
  · rintro ⟨_, ⟨hdeclared, rfl⟩, hnext⟩
    exact ⟨hdeclared, hnext⟩
  · rintro ⟨hdeclared, hnext⟩
    exact ⟨_, ⟨hdeclared, rfl⟩, hnext⟩

/-- Records of links are restored if they can be gathered with ends that are blocks, whatever their
    order. -/
theorem foldlM_restoreLink_eq_ok_iff {records : List LinkRecord} {blocks : Table BlockId Block}
    {counter : LinkId} {next : Table LinkId Link × LinkId} :
    records.foldlM (restoreLink blocks) (∅, counter) = .ok next ↔
      Gatherable (·.id) (fun r => blocks.contains r.link.source = true ∧
        blocks.contains r.link.target = true) (∅ : Table LinkId Link) records ∧
      next = (.ofList (records.map fun r => (r.id, r.link)),
        counter.counterAbove (records.map (·.id))) := by
  rw [Table.ofList, List.foldl_map]
  refine foldlM_numbered_eq_ok_iff fun done r next => ?_
  rw [restoreLink_eq_ok_iff]
  simp only [and_assoc]

/-- A snapshot is restored exactly if it fulfils what it must, and then to the graph of its
    records. -/
theorem restore_eq_ok_iff_restorable {s : Snapshot} {g : Graph} :
    s.restore = .ok g ↔ s.Restorable ∧ g = s.restored := by
  rw [restore_eq_ok_iff]
  constructor
  · rintro ⟨hblockCounter, _, hrestoreBlocks, hlinkCounter, _, hrestoreLinks, rfl⟩
    obtain ⟨hblocks, rfl⟩ := foldlM_restoreBlock_eq_ok_iff.1 hrestoreBlocks
    obtain ⟨hlinks, rfl⟩ := foldlM_restoreLink_eq_ok_iff.1 hrestoreLinks
    refine ⟨?_, rfl⟩
    constructor
    · exact le_maxRestoredId_iff.2 hblockCounter
    · exact le_maxRestoredId_iff.2 hlinkCounter
    · exact fun r hr => le_maxRestoredId_sub_one_iff.2 (hblocks.inRange r hr)
    · exact fun r hr => le_maxRestoredId_sub_one_iff.2 (hlinks.inRange r hr)
    · exact hblocks.distinct
    · exact hlinks.distinct
    · exact hblocks.fitting
    · intro r hr
      have hends := hlinks.fitting r hr
      rwa [contains_numbered_iff hblocks.distinct, contains_numbered_iff hblocks.distinct] at hends
  · rintro ⟨hs, rfl⟩
    refine ⟨le_maxRestoredId_iff.1 hs.blockCounter, _, foldlM_restoreBlock_eq_ok_iff.2 ⟨?_, rfl⟩,
      le_maxRestoredId_iff.1 hs.linkCounter, _, foldlM_restoreLink_eq_ok_iff.2 ⟨?_, rfl⟩, rfl⟩
    · exact ⟨fun r hr => le_maxRestoredId_sub_one_iff.1 (hs.blockIds r hr), hs.declared,
        hs.blocksDistinct, fun r _ => nofun⟩
    · refine ⟨fun r hr => le_maxRestoredId_sub_one_iff.1 (hs.linkIds r hr), fun r hr => ?_,
        hs.linksDistinct, fun r _ => nofun⟩
      rw [contains_numbered_iff hs.blocksDistinct, contains_numbered_iff hs.blocksDistinct]
      exact hs.ends r hr

end Snapshot

end CommandBlocks
