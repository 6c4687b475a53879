import CommandBlocks.Proofs.Snapshot.Normal

namespace CommandBlocks

variable {fault : GraphFault}

/-- A counter is refused if it is above the range of restored graphs. -/
theorem Id.asCounter_eq_error_iff {named : Named} {i : Id named} :
    i.asCounter = .error fault ↔ maxRestoredId < i.number ∧ fault = .idOutOfRange i.number := by
  rw [asCounter, ite_eq_error_iff, UInt64.not_le]

/-- An identifier is refused if it leaves no room in the range for the one after it. -/
theorem Id.nextCounter_eq_error_iff {named : Named} {i : Id named} :
    i.nextCounter = .error fault ↔
      maxRestoredId - 1 < i.number ∧ fault = .idOutOfRange i.number := by
  have hlast : ¬ i.number < maxRestoredId ↔ maxRestoredId - 1 < i.number := by
    have hmax : maxRestoredId.toNat = 2 ^ 63 - 1 := rfl
    have hpred : (maxRestoredId - 1).toNat = 2 ^ 63 - 2 := rfl
    rw [UInt64.lt_iff_toNat_lt, UInt64.lt_iff_toNat_lt, hmax, hpred]
    omega
  rw [nextCounter, ite_eq_error_iff, hlast]

namespace Snapshot

variable {s : Snapshot}

/-- What a fault says of a snapshot, against what the snapshot must fulfil. -/
inductive Violates (s : Snapshot) : GraphFault → Prop
  | blockCounter (hcounter : maxRestoredId < s.nextBlock.number) :
    Violates s (.idOutOfRange s.nextBlock.number)
  | linkCounter (hcounter : maxRestoredId < s.nextLink.number) :
    Violates s (.idOutOfRange s.nextLink.number)
  | blockId {r : BlockRecord} (hr : r ∈ s.blocks) (hid : maxRestoredId - 1 < r.id.number) :
    Violates s (.idOutOfRange r.id.number)
  | linkId {r : LinkRecord} (hr : r ∈ s.links) (hid : maxRestoredId - 1 < r.id.number) :
    Violates s (.idOutOfRange r.id.number)
  | repeatedBlock {id : BlockId} (htwice : 2 ≤ (s.blocks.map (·.id)).count id) :
    Violates s (.repeatedBlock id)
  | repeatedLink {id : LinkId} (htwice : 2 ≤ (s.links.map (·.id)).count id) :
    Violates s (.repeatedLink id)
  | undeclared {r : BlockRecord} {x : String × Value} (hr : r ∈ s.blocks) (hx : x ∈ r.values)
    (hname : ¬ r.kind.Declares x.1) : Violates s (.unknownParameter r.id r.kind x.1)
  | looseEnd {r : LinkRecord} {id : BlockId} (hr : r ∈ s.links)
    (hid : id = r.link.source ∨ id = r.link.target) (hmissing : ¬ ∃ q ∈ s.blocks, q.id = id) :
    Violates s (.noBlock id)

/-- A snapshot that violates anything is not restored. -/
theorem Violates.not_restorable (hviolates : s.Violates fault) : ¬ s.Restorable := by
  intro hs
  cases hviolates with
  | blockCounter hcounter => exact UInt64.not_lt.2 hs.blockCounter hcounter
  | linkCounter hcounter => exact UInt64.not_lt.2 hs.linkCounter hcounter
  | blockId hr hid => exact UInt64.not_lt.2 (hs.blockIds _ hr) hid
  | linkId hr hid => exact UInt64.not_lt.2 (hs.linkIds _ hr) hid
  | repeatedBlock htwice =>
    have honce := List.nodup_iff_count_le_one.1 hs.blocksDistinct
    exact Nat.not_le_of_lt htwice (honce _)
  | repeatedLink htwice =>
    have honce := List.nodup_iff_count_le_one.1 hs.linksDistinct
    exact Nat.not_le_of_lt htwice (honce _)
  | undeclared hr hx hname => exact hname (hs.declared _ hr _ hx)
  | looseEnd hr hid hmissing =>
    obtain rfl | rfl := hid
    · exact hmissing (hs.ends _ hr).1
    · exact hmissing (hs.ends _ hr).2

/-- Values are refused for a name that the kind does not declare. -/
theorem undeclared_of_restoreValues {id : BlockId} {kind : Kind} {values : List (String × Value)}
    (herror : restoreValues id kind values = .error fault) :
    ∃ x ∈ values, ¬ kind.Declares x.1 ∧ fault = .unknownParameter id kind x.1 := by
  obtain ⟨before, x, after, table, rfl, -, hx⟩ := exists_of_foldlM_eq_error herror
  refine ⟨x, by simp, ?_⟩
  cases hinput : kind.inputNamed? x.1 with
  | none =>
    simp only [hinput, Except.error.injEq] at hx
    exact ⟨Kind.inputNamed?_eq_none_iff.1 hinput, hx.symm⟩
  | some input => simp [hinput] at hx

/-- A record of a block is refused for its identifier, then for being the second of its identifier,
    then for its values. -/
theorem restoreBlock_eq_error_iff {r : BlockRecord} {done : Table BlockId Block × BlockId} :
    restoreBlock done r = .error fault ↔ r.id.nextCounter = .error fault ∨
      ∃ following, r.id.nextCounter = .ok following ∧
        (done.1.contains r.id = true ∧ fault = .repeatedBlock r.id ∨
          ¬ done.1.contains r.id = true ∧ restoreValues r.id r.kind r.values = .error fault) := by
  simp [restoreBlock, bind_eq_error_iff, throw_or_eq_error_iff, pure, Except.pure]

/-- A record of a link is refused for its identifier, then for being the second of its identifier,
    then for its source, then for its target. -/
theorem restoreLink_eq_error_iff {r : LinkRecord} {blocks : Table BlockId Block}
    {done : Table LinkId Link × LinkId} :
    restoreLink blocks done r = .error fault ↔ r.id.nextCounter = .error fault ∨
      ∃ following, r.id.nextCounter = .ok following ∧
        (done.1.contains r.id = true ∧ fault = .repeatedLink r.id ∨
          ¬ done.1.contains r.id = true ∧
            (¬ blocks.contains r.link.source = true ∧ fault = .noBlock r.link.source ∨
              blocks.contains r.link.source = true ∧
                ¬ blocks.contains r.link.target = true ∧ fault = .noBlock r.link.target)) := by
  simp [restoreLink, bind_eq_error_iff, throw_or_eq_error_iff, pure, Except.pure]

/-- What is met again after it was gathered occurs twice. -/
private theorem two_le_count {ρ : Type} {named : Named} {id : ρ → Id named} {before after : List ρ}
    {r : ρ} (hmem : id r ∈ before.map id) :
    2 ≤ ((before ++ r :: after).map id).count (id r) := by
  have hbefore := List.one_le_count_iff.2 hmem
  rw [List.map_append, List.map_cons, List.count_append, List.count_cons_self]
  omega

/-- The fault that ends the restoring of the blocks is a condition that the snapshot breaks. -/
theorem violates_of_restoreBlocks {counter : BlockId}
    (herror : s.blocks.foldlM restoreBlock (∅, counter) = .error fault) : s.Violates fault := by
  obtain ⟨before, r, after, done, hblocks, hdone, hr⟩ := exists_of_foldlM_eq_error herror
  have hmem : r ∈ s.blocks := by simp [hblocks]
  obtain ⟨hgathered, rfl⟩ := foldlM_restoreBlock_eq_ok_iff.1 hdone
  obtain hrange | ⟨following, -, ⟨hmet, rfl⟩ | ⟨-, hvalues⟩⟩ := restoreBlock_eq_error_iff.1 hr
  · obtain ⟨hid, rfl⟩ := Id.nextCounter_eq_error_iff.1 hrange
    exact .blockId hmem hid
  · rw [contains_numbered_iff hgathered.distinct, ← List.mem_map] at hmet
    exact .repeatedBlock (hblocks ▸ two_le_count hmet)
  · obtain ⟨x, hx, hname, rfl⟩ := undeclared_of_restoreValues hvalues
    exact .undeclared hmem hx hname

/-- The fault that ends the restoring of the links is a condition that the snapshot breaks. -/
theorem violates_of_restoreLinks {blocks : Table BlockId Block} {counter : LinkId}
    (hblocks : ∀ id, blocks.contains id = true ↔ ∃ q ∈ s.blocks, q.id = id)
    (herror : s.links.foldlM (restoreLink blocks) (∅, counter) = .error fault) :
    s.Violates fault := by
  obtain ⟨before, r, after, done, hlinks, hdone, hr⟩ := exists_of_foldlM_eq_error herror
  have hmem : r ∈ s.links := by simp [hlinks]
  obtain ⟨hgathered, rfl⟩ := foldlM_restoreLink_eq_ok_iff.1 hdone
  obtain hrange | ⟨following, -, ⟨hmet, rfl⟩ | ⟨-, ⟨hsource, rfl⟩ | ⟨-, htarget, rfl⟩⟩⟩ :=
    restoreLink_eq_error_iff.1 hr
  · obtain ⟨hid, rfl⟩ := Id.nextCounter_eq_error_iff.1 hrange
    exact .linkId hmem hid
  · rw [contains_numbered_iff hgathered.distinct, ← List.mem_map] at hmet
    exact .repeatedLink (hlinks ▸ two_le_count hmet)
  · exact .looseEnd hmem (.inl rfl) (mt (hblocks _).2 hsource)
  · exact .looseEnd hmem (.inr rfl) (mt (hblocks _).2 htarget)

/-- Restoring fails at the counter of the blocks, at the blocks, at the counter of the links or at
    the links, in this order. -/
theorem restore_eq_error_iff : s.restore = .error fault ↔ s.nextBlock.asCounter = .error fault ∨
    ∃ blockCounter, s.nextBlock.asCounter = .ok blockCounter ∧
      (s.blocks.foldlM restoreBlock (∅, blockCounter) = .error fault ∨
        ∃ blocks, s.blocks.foldlM restoreBlock (∅, blockCounter) = .ok blocks ∧
          (s.nextLink.asCounter = .error fault ∨
            ∃ linkCounter, s.nextLink.asCounter = .ok linkCounter ∧
              s.links.foldlM (restoreLink blocks.1) (∅, linkCounter) = .error fault)) := by
  simp [restore, bind_eq_error_iff, pure, Except.pure]

/-- The fault that a snapshot is refused for is a condition that it breaks. -/
theorem violates_of_restore (herror : s.restore = .error fault) : s.Violates fault := by
  obtain hblockCounter | ⟨_, -, hblocks | ⟨_, hblocks, hlinkCounter | ⟨_, -, hlinks⟩⟩⟩ :=
    restore_eq_error_iff.1 herror
  · obtain ⟨hcounter, rfl⟩ := Id.asCounter_eq_error_iff.1 hblockCounter
    exact .blockCounter hcounter
  · exact violates_of_restoreBlocks hblocks
  · obtain ⟨hcounter, rfl⟩ := Id.asCounter_eq_error_iff.1 hlinkCounter
    exact .linkCounter hcounter
  · obtain ⟨hgathered, rfl⟩ := foldlM_restoreBlock_eq_ok_iff.1 hblocks
    exact violates_of_restoreLinks (fun _ => contains_numbered_iff hgathered.distinct) hlinks

/-- A snapshot is restored exactly if it fulfils what it must, and to a graph whose snapshot is its
    normal form. The order of its records does not matter. Where it is not restored, the fault names
    what it violates, which keeps it from being restored. -/
theorem restore_normal (s : Snapshot) :
    ((∃ g, s.restore = .ok g) ↔ s.Restorable) ∧
      (∀ g, s.restore = .ok g → g.snapshot = s.normal) ∧
      (∀ t, s.Reordered t → ∀ g, s.restore = .ok g ↔ t.restore = .ok g) ∧
      ∀ fault, (s.restore = .error fault → s.Violates fault) ∧
        (s.Violates fault → ¬ s.Restorable) := by
  refine ⟨⟨?_, fun hs => ⟨_, restore_eq_ok_iff_restorable.2 ⟨hs, rfl⟩⟩⟩, ?_, ?_, ?_⟩
  · rintro ⟨g, hg⟩
    exact (restore_eq_ok_iff_restorable.1 hg).1
  · intro g hg
    obtain ⟨hs, rfl⟩ := restore_eq_ok_iff_restorable.1 hg
    exact hs.snapshot_restored
  · exact fun t hst g => hst.restore_eq_ok_iff
  · exact fun fault => ⟨violates_of_restore, Violates.not_restorable⟩

/-- Records out of order, with a value that is entered twice, and a counter that is too low. -/
def scrambledSnapshot : Snapshot where
  blocks := [⟨⟨7⟩, .gpioWrite, [("value", .text "1"), ("pin", .text " 4"),
    ("value", .boolean false)]⟩, ⟨⟨3⟩, .ifThen, []⟩]
  links := [⟨⟨0⟩, ⟨⟨3⟩, .child, ⟨7⟩⟩⟩]
  nextBlock := ⟨2⟩
  nextLink := ⟨9⟩

theorem restore_scrambledSnapshot :
    (∃ g, scrambledSnapshot.restore = .ok g ∧ g.snapshot = {
      blocks := [⟨⟨3⟩, .ifThen, []⟩,
        ⟨⟨7⟩, .gpioWrite, [("pin", .text " 4"), ("value", .boolean false)]⟩]
      links := [⟨⟨0⟩, ⟨⟨3⟩, .child, ⟨7⟩⟩⟩]
      nextBlock := ⟨8⟩
      nextLink := ⟨9⟩ }) ∧
    { scrambledSnapshot with blocks := [] }.Violates (.noBlock ⟨3⟩) := by
  obtain ⟨hok, hnormal, -, -⟩ := restore_normal scrambledSnapshot
  obtain ⟨-, -, -, hviolates⟩ := restore_normal { scrambledSnapshot with blocks := [] }
  obtain ⟨g, hg⟩ := hok.2 (by decide)
  refine ⟨⟨g, hg, ?_⟩, (hviolates _).1 rfl⟩
  rw [hnormal g hg]
  decide

end Snapshot

end CommandBlocks
