import CommandBlocks.Proofs.Graph.Faults
import CommandBlocks.Proofs.Snapshot.Records
import CommandBlocks.Text.Utf8
import Mathlib.Data.List.Sort

namespace CommandBlocks

section Values

/-- Of the values with one name the last. -/
def lastValues (values : List (String × Value)) : List (String × Value) :=
  values.pwFilter fun x y => x.1 ≠ y.1

/-- The last value of every name, in the order of the bytes of the names. -/
def normalValues (values : List (String × Value)) : List (String × Value) :=
  (lastValues values).insertionSort fun x y => Text.toUtf8 x.1 ≤ Text.toUtf8 y.1

/-- An entry stays exactly if none of its name follows. -/
theorem mem_lastValues_cons {x y : String × Value} {values : List (String × Value)} :
    y ∈ lastValues (x :: values) ↔
      y ∈ lastValues values ∨ (∀ z ∈ values, x.1 ≠ z.1) ∧ y = x := by
  have hnames : (∀ z ∈ lastValues values, x.1 ≠ z.1) ↔ ∀ z ∈ values, x.1 ≠ z.1 := by
    refine List.forall_mem_pwFilter (fun hne => ?_) x values
    by_contra hboth
    rw [not_or, not_not, not_not] at hboth
    exact hne (hboth.1.trans hboth.2)
  by_cases hlast : ∀ z ∈ values, x.1 ≠ z.1
  · rw [lastValues, List.pwFilter_cons_of_pos (hnames.2 hlast), List.mem_cons, or_comm,
      and_iff_right hlast, lastValues]
  · rw [lastValues, List.pwFilter_cons_of_neg (mt hnames.1 hlast), lastValues]
    exact (or_iff_left fun h => hlast h.1).symm

/-- Under a parameter stands the last value of its name. -/
theorem get?_enterNamed {table : Table Parameter Value} {values : List (String × Value)}
    {parameter : Parameter} {value : Value} :
    (table.enterNamed values).get? parameter = some value ↔
      (parameter.name, value) ∈ lastValues values ∨
        (∀ x ∈ values, parameter.name ≠ x.1) ∧ table.get? parameter = some value := by
  induction values generalizing table with
  | nil => simp [Table.enterNamed, lastValues]
  | cons x values ih =>
    obtain ⟨name, entered⟩ := x
    rw [Table.enterNamed, List.foldl_cons, ← Table.enterNamed, ih, mem_lastValues_cons,
      List.forall_mem_cons, or_assoc]
    refine or_congr_right ?_
    by_cases hname : parameter.name = name
    · simp [hname, Parameter.ofName?_eq_some_iff.2 hname, Table.get?_insert_self, eq_comm]
    · cases hp : Parameter.ofName? name with
      | none => simp [hname]
      | some p =>
        have hne : parameter ≠ p := by
          rintro rfl
          exact hname (Parameter.ofName?_eq_some_iff.1 hp)
        simp [hname, Table.get?_insert_of_ne _ _ hne]

/-- The order of parameters is that of the bytes of their names. -/
theorem Parameter.toUtf8_name_le {p q : Parameter} (hlt : compare p q = .lt) :
    Text.toUtf8 p.name ≤ Text.toUtf8 q.name := by
  cases p <;> cases q <;> first | decide | (exfalso; revert hlt; decide)

/-- Texts with the same bytes are the same. -/
theorem Text.toUtf8_inj {s t : String} (heq : toUtf8 s = toUtf8 t) : s = t := by
  have hs := ofUtf8_toUtf8 s
  rw [heq, ofUtf8_toUtf8 t, Except.ok.injEq] at hs
  exact hs.symm

/-- The values of a normal record are in the order of the bytes of their names. -/
private theorem pairwise_normalValues (values : List (String × Value)) :
    (normalValues values).Pairwise fun x y => Text.toUtf8 x.1 ≤ Text.toUtf8 y.1 := by
  have htotal : Std.Total fun x y : String × Value => Text.toUtf8 x.1 ≤ Text.toUtf8 y.1 :=
    ⟨fun _ _ => List.le_total _ _⟩
  have htrans : IsTrans _ fun x y : String × Value => Text.toUtf8 x.1 ≤ Text.toUtf8 y.1 :=
    ⟨fun _ _ _ => List.le_trans⟩
  exact List.pairwise_insertionSort _ _

/-- No name is left twice when the last value of each is kept. -/
theorem nodup_names_lastValues (values : List (String × Value)) :
    ((lastValues values).map (·.1)).Nodup :=
  List.pairwise_map.2 (List.pairwise_pwFilter values)

/-- The entries under the parameters of some values, with the parameters' names. -/
theorem entries_enterNamed_perm {values : List (String × Value)}
    (hnames : ∀ x ∈ values, ∃ parameter : Parameter, parameter.name = x.1) :
    ((Table.enterNamed ∅ values).entries.map fun x => (x.1.name, x.2)).Perm
      (lastValues values) := by
  have hinj : Function.Injective fun x : Parameter × Value => (x.1.name, x.2) := by
    intro x y heq
    rw [Prod.mk.injEq] at heq
    exact Prod.ext (Parameter.name_inj heq.1) heq.2
  have hget : ∀ parameter value, (Table.enterNamed ∅ values).get? parameter = some value ↔
      (parameter.name, value) ∈ lastValues values := by
    intro parameter value
    rw [get?_enterNamed, Table.get?_empty]
    exact or_iff_left fun h => nomatch h.2
  rw [List.perm_ext_iff_of_nodup ((Table.nodup_entries _).map hinj)
    (nodup_names_lastValues values).of_map]
  intro x
  rw [List.mem_map]
  constructor
  · rintro ⟨⟨parameter, value⟩, hmem, rfl⟩
    exact (hget parameter value).1 (Table.mem_entries_iff.1 hmem)
  · intro hmem
    obtain ⟨parameter, hparameter⟩ := hnames x (List.pwFilter_subset _ hmem)
    have hstored : (parameter, x.2) ∈ (Table.enterNamed ∅ values).entries := by
      rw [Table.mem_entries_iff, hget, hparameter]
      exact hmem
    exact ⟨_, hstored, Prod.ext hparameter rfl⟩

/-- Values are listed in their normal form once they are entered under their parameters. -/
theorem entries_enterNamed {values : List (String × Value)}
    (hnames : ∀ x ∈ values, ∃ parameter : Parameter, parameter.name = x.1) :
    ((Table.enterNamed ∅ values).entries.map fun x => (x.1.name, x.2)) = normalValues values := by
  have hentries := entries_enterNamed_perm hnames
  have hnormal : (normalValues values).Perm (lastValues values) := List.perm_insertionSort _ _
  refine List.Perm.eq_of_pairwise (fun x y hx hy hxy hyx => ?_) ?_ (pairwise_normalValues values)
    (hentries.trans hnormal.symm)
  · -- no name is listed twice
    have hname : x.1 = y.1 := Text.toUtf8_inj (List.le_antisymm hxy hyx)
    exact List.inj_on_of_nodup_map (nodup_names_lastValues values) (hentries.mem_iff.1 hx)
      (hnormal.mem_iff.1 hy) hname
  · rw [List.pairwise_map]
    exact (Table.enterNamed ∅ values).ascending.imp Parameter.toUtf8_name_le

end Values

section Records

variable {ρ α : Type} {named : Named} {id : ρ → Id named} {content : ρ → α} {records : List ρ}

/-- Records by ascending identifiers. -/
def sortedBy (id : ρ → Id named) (records : List ρ) : List ρ :=
  records.insertionSort fun r q => (id r).number ≤ (id q).number

/-- The table of records with different identifiers lists them by ascending identifiers. -/
theorem entries_numbered (hdistinct : (records.map id).Nodup) :
    (Table.ofList (records.map fun r => (id r, content r))).entries =
      (sortedBy id records).map fun r => (id r, content r) := by
  have htotal : Std.Total fun r q : ρ => (id r).number ≤ (id q).number :=
    ⟨fun _ _ => UInt64.le_total _ _⟩
  have htrans : IsTrans ρ fun r q => (id r).number ≤ (id q).number :=
    ⟨fun _ _ _ => UInt64.le_trans⟩
  have hkeys : ((records.map fun r => (id r, content r)).map (·.1)).Nodup := by
    rw [List.map_map]
    exact hdistinct
  have hentries := Table.entries_ofList_perm hkeys
  have hsorted : ((sortedBy id records).map fun r => (id r, content r)).Perm
      (records.map fun r => (id r, content r)) := (List.perm_insertionSort _ _).map _
  refine List.Perm.eq_of_pairwise (fun x y hx hy hxy hyx => ?_)
    ((Table.number_ascending _).imp UInt64.le_of_lt) ?_ (hentries.trans hsorted.symm)
  · have hid : x.1 = y.1 := Id.number_inj (UInt64.le_antisymm hxy hyx)
    exact List.inj_on_of_nodup_map hkeys (hentries.mem_iff.1 hx) (hsorted.mem_iff.1 hy) hid
  · rw [List.pairwise_map]
    exact List.pairwise_insertionSort _ _

end Records

namespace Snapshot

variable {s t : Snapshot}

/-- A snapshot with its records in the order of their identifiers, their values in normal form, and
    its counters above its identifiers. -/
def normal (s : Snapshot) : Snapshot where
  blocks := (sortedBy (·.id) s.blocks).map fun r => { r with values := normalValues r.values }
  links := sortedBy (·.id) s.links
  nextBlock := s.nextBlock.counterAbove (s.blocks.map (·.id))
  nextLink := s.nextLink.counterAbove (s.links.map (·.id))

/-- Restoring a snapshot and saving the graph gives the normal form of the snapshot. -/
theorem Restorable.snapshot_restored (hs : s.Restorable) : s.restored.snapshot = s.normal := by
  have hblocks : s.restored.snapshot.blocks = s.normal.blocks := by
    simp only [restored, Graph.recount, Graph.recountWhere, Table.map, Graph.snapshot, normal]
    rw [entries_numbered hs.blocksDistinct, List.map_map, List.map_map]
    refine List.map_congr_left fun r hr => ?_
    have hmem : r ∈ s.blocks := (List.perm_insertionSort _ _).mem_iff.1 hr
    have hnames : ∀ x ∈ r.values, ∃ parameter : Parameter, parameter.name = x.1 := by
      intro x hx
      obtain ⟨input, -, hname⟩ := hs.declared r hmem x hx
      exact ⟨input.parameter, hname⟩
    exact congrArg (BlockRecord.mk r.id r.kind) (entries_enterNamed hnames)
  have hlinks : s.restored.snapshot.links = s.normal.links := by
    simp only [restored, Graph.recount, Graph.snapshot, normal]
    rw [entries_numbered hs.linksDistinct, List.map_map]
    exact List.map_id _
  calc s.restored.snapshot
    _ = ⟨s.normal.blocks, s.normal.links, s.normal.nextBlock, s.normal.nextLink⟩ := by
      rw [← hblocks, ← hlinks]
      rfl
    _ = s.normal := rfl

/-- Two snapshots have the same records, in whatever orders, and the same counters. -/
structure Reordered (s t : Snapshot) : Prop where
  blocks : s.blocks.Perm t.blocks
  links : s.links.Perm t.links
  nextBlock : s.nextBlock = t.nextBlock
  nextLink : s.nextLink = t.nextLink

namespace Reordered

theorem symm (hst : s.Reordered t) : t.Reordered s :=
  ⟨hst.blocks.symm, hst.links.symm, hst.nextBlock.symm, hst.nextLink.symm⟩

/-- The order of records does not matter to whether they can be restored. -/
theorem restorable (hst : s.Reordered t) (hs : s.Restorable) : t.Restorable where
  blockCounter := hst.nextBlock ▸ hs.blockCounter
  linkCounter := hst.nextLink ▸ hs.linkCounter
  blockIds r hr := hs.blockIds r (hst.blocks.mem_iff.2 hr)
  linkIds r hr := hs.linkIds r (hst.links.mem_iff.2 hr)
  blocksDistinct := (hst.blocks.map _).nodup_iff.1 hs.blocksDistinct
  linksDistinct := (hst.links.map _).nodup_iff.1 hs.linksDistinct
  declared r hr := hs.declared r (hst.blocks.mem_iff.2 hr)
  ends r hr := by
    have hends := hs.ends r (hst.links.mem_iff.2 hr)
    simpa only [hst.blocks.mem_iff] using hends

/-- The order of records does not matter to the graph that is restored. -/
theorem restored_eq (hst : s.Reordered t) (hs : s.Restorable) : s.restored = t.restored := by
  have hblocks : Table.ofList (s.blocks.map fun r => (r.id, r.block)) =
      .ofList (t.blocks.map fun r => (r.id, r.block)) := by
    refine Table.ofList_perm ?_ (hst.blocks.map _)
    rw [List.map_map]
    exact hs.blocksDistinct
  have hlinks : Table.ofList (s.links.map fun r => (r.id, r.link)) =
      .ofList (t.links.map fun r => (r.id, r.link)) := by
    refine Table.ofList_perm ?_ (hst.links.map _)
    rw [List.map_map]
    exact hs.linksDistinct
  rw [restored, restored, hblocks, hlinks, hst.nextBlock, hst.nextLink,
    Id.counterAbove_perm (hst.blocks.map _), Id.counterAbove_perm (hst.links.map _)]

/-- Neither whether a snapshot is restored nor the graph depends on the order of the records. -/
theorem restore_eq_ok_iff (hst : s.Reordered t) {g : Graph} :
    s.restore = .ok g ↔ t.restore = .ok g := by
  rw [restore_eq_ok_iff_restorable, restore_eq_ok_iff_restorable]
  constructor
  · rintro ⟨hs, rfl⟩
    exact ⟨hst.restorable hs, hst.restored_eq hs⟩
  · rintro ⟨ht, rfl⟩
    exact ⟨hst.symm.restorable ht, hst.symm.restored_eq ht⟩

end Reordered

end Snapshot

end CommandBlocks
