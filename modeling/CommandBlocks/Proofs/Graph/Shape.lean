import CommandBlocks.Proofs.Graph.Cycles

namespace CommandBlocks

/-- Whether a number of nested blocks is within a capacity. -/
def Capacity.Holds : Capacity → Nat → Prop
  | closed, held => held = 0
  | atMost limit, held => held ≤ limit
  | unbounded, _ => True

namespace Capacity

/-- A capacity that holds some blocks holds fewer. -/
theorem Holds.mono {capacity : Capacity} {held fewer : Nat} (hholds : capacity.Holds held)
    (hle : fewer ≤ held) : capacity.Holds fewer := by
  cases capacity with
  | closed => exact Nat.eq_zero_of_le_zero (hholds ▸ hle)
  | atMost limit => exact hle.trans hholds
  | unbounded => trivial

/-- A capacity holds one more block exactly if there is room for it. -/
theorem holds_succ_iff {capacity : Capacity} {held : Nat} :
    capacity.Holds (held + 1) ↔ capacity.hasRoom held = true := by
  cases capacity with
  | closed => simp [Holds, hasRoom]
  | atMost limit => rw [Holds, hasRoom, decide_eq_true_eq, Nat.succ_le_iff]
  | unbounded => simp [Holds, hasRoom]

end Capacity

/-- No identifier of a list is repeated exactly if they are distinct, and distinct from those seen
    before. -/
theorem firstRepeated_eq_none_iff {seen ids : List BlockId} :
    firstRepeated seen ids = none ↔ ids.Nodup ∧ ∀ id ∈ ids, id ∉ seen := by
  induction ids generalizing seen with
  | nil => simp [firstRepeated]
  | cons id rest ih =>
    rw [firstRepeated, List.nodup_cons]
    by_cases hseen : id ∈ seen
    · simp [hseen]
    · rw [if_neg hseen, ih]
      constructor
      · rintro ⟨hnodup, hapart⟩
        refine ⟨⟨fun hmem => hapart id hmem List.mem_cons_self, hnodup⟩, fun other hother => ?_⟩
        obtain rfl | hother := List.mem_cons.1 hother
        · exact hseen
        · exact fun hmem => hapart other hother (List.mem_cons_of_mem _ hmem)
      · rintro ⟨⟨hnew, hnodup⟩, hapart⟩
        refine ⟨hnodup, fun other hother hmem => ?_⟩
        obtain rfl | hmem := List.mem_cons.1 hmem
        · exact hnew hother
        · exact hapart other (List.mem_cons_of_mem _ hother) hmem

/-- A function takes different values on a list exactly when it takes none of them twice. -/
private theorem nodup_map_iff {α β : Type} [DecidableEq β] {l : List α} {f : α → β} :
    (l.map f).Nodup ↔ ∀ b, (l.filter fun a => f a = b).length ≤ 1 := by
  rw [List.nodup_iff_count_le_one]
  refine forall_congr' fun b => ?_
  rw [List.count_eq_countP, List.countP_map, List.countP_eq_length_filter]
  have htest : ((· == b) ∘ f) = fun a => decide (f a = b) := by
    funext a
    simp [beq_eq_decide]
  rw [htest]

private theorem eq_of_length_le_one {α : Type} {l : List α} {a b : α} (hlength : l.length ≤ 1)
    (ha : a ∈ l) (hb : b ∈ l) : a = b := by
  obtain ⟨c, rfl⟩ := List.length_eq_one_iff.1
    (Nat.le_antisymm hlength (List.length_pos_of_mem ha))
  rw [List.mem_singleton.1 ha, List.mem_singleton.1 hb]

namespace Graph

variable {g : Graph}

/-- At most one link ends at each block, at most one leaves it to a next block, no block holds more
    blocks than its kind allows, and there is no cycle. -/
structure Shaped (g : Graph) : Prop where
  oneParent : ∀ id, (g.incoming id).length ≤ 1
  oneNext : ∀ id, (g.outgoing id .next).length ≤ 1
  capacity : ∀ x ∈ g.blocks.entries, x.2.kind.capacity.Holds (g.outgoing x.1 .child).length
  acyclic : g.Acyclic

/-- The check for parents finds no fault exactly if at most one link ends at each block. -/
theorem severalParents?_eq_none_iff :
    g.severalParents? = none ↔ ∀ id, (g.incoming id).length ≤ 1 := by
  rw [severalParents?, Option.map_eq_none_iff, firstRepeated_eq_none_iff, Table.values,
    List.map_map, nodup_map_iff]
  simp [incoming, Function.comp_def]

theorem severalSuccessors?_eq_none_iff :
    g.severalSuccessors? = none ↔ ∀ id, (g.outgoing id .next).length ≤ 1 := by
  rw [severalSuccessors?, Option.map_eq_none_iff, firstRepeated_eq_none_iff, nodup_map_iff]
  simp [outgoing, Table.values, List.filter_map, List.filter_filter, Function.comp_def]

theorem excess?_eq_none_iff {id : BlockId} {block : Block} :
    excess? id block = none ↔ block.kind.capacity.Holds block.childCount := by
  rw [excess?]
  cases block.kind.capacity <;> simp [Capacity.Holds]

/-- The check for room finds no fault exactly if every capacity holds the links to children. -/
theorem WellFormed.overfull?_eq_none_iff (hg : g.WellFormed) :
    g.overfull? = none ↔
      ∀ x ∈ g.blocks.entries, x.2.kind.capacity.Holds (g.outgoing x.1 .child).length := by
  rw [overfull?, List.findSome?_eq_none_iff]
  refine forall₂_congr fun x hx => ?_
  rw [excess?_eq_none_iff, hg.counts x hx]

/-- The checks made before compiling find no fault exactly in the graphs of the right shape. -/
theorem WellFormed.shapeFault?_eq_none_iff (hg : g.WellFormed) :
    g.shapeFault? = none ↔ g.Shaped := by
  simp only [shapeFault?, Option.orElse_eq_orElse, Option.orElse_eq_or, Option.or_eq_none_iff,
    severalParents?_eq_none_iff, severalSuccessors?_eq_none_iff, hg.overfull?_eq_none_iff,
    hg.cycle?_eq_none_iff]
  constructor
  · rintro ⟨hparent, hnext, hcapacity, hacyclic⟩
    exact ⟨hparent, hnext, hcapacity, hacyclic⟩
  · rintro ⟨hparent, hnext, hcapacity, hacyclic⟩
    exact ⟨hparent, hnext, hcapacity, hacyclic⟩

/-- Nothing is compiled that the checks find fault with. -/
theorem shapeFault?_eq_none_of_compile {options : Options} {program : Program}
    (hcompile : g.compile options = .ok program) : g.shapeFault? = none := by
  cases hshape : g.shapeFault? with
  | none => rfl
  | some fault => simp [compile, hshape] at hcompile

/-- Two links that end at one block are the same link. -/
theorem link_unique_of_oneParent (hparent : ∀ id, (g.incoming id).length ≤ 1) {i j : LinkId}
    {link other : Link} (hlink : g.links.get? i = some link) (hother : g.links.get? j = some other)
    (htarget : link.target = other.target) : i = j ∧ link = other := by
  have hfirst : (i, link) ∈ g.incoming link.target := mem_incoming.2 ⟨hlink, rfl⟩
  have hsecond : (j, other) ∈ g.incoming link.target := mem_incoming.2 ⟨hother, htarget.symm⟩
  exact Prod.mk.inj (eq_of_length_le_one (hparent link.target) hfirst hsecond)

/-- Where at most one link ends at each block, at most one block leads to each. -/
theorem leads_unique_of_oneParent (hparent : ∀ id, (g.incoming id).length ≤ 1)
    {first second target : BlockId} (hfirst : g.Leads first target)
    (hsecond : g.Leads second target) : first = second := by
  obtain ⟨i, link, hlink, rfl, rfl⟩ := hfirst
  obtain ⟨j, other, hother, rfl, htarget⟩ := hsecond
  rw [(link_unique_of_oneParent hparent hlink hother htarget.symm).2]

namespace Shaped

theorem link_unique (hg : g.Shaped) {i j : LinkId} {link other : Link}
    (hlink : g.links.get? i = some link) (hother : g.links.get? j = some other)
    (htarget : link.target = other.target) : i = j ∧ link = other :=
  link_unique_of_oneParent hg.oneParent hlink hother htarget

theorem leads_unique (hg : g.Shaped) {first second target : BlockId}
    (hfirst : g.Leads first target) (hsecond : g.Leads second target) : first = second :=
  leads_unique_of_oneParent hg.oneParent hfirst hsecond

/-- With one link to a next block at most, a block leads to those that are read after it. -/
theorem mem_followers_iff (hg : g.Shaped) {source target : BlockId} :
    target ∈ g.followers source ↔ g.Leads source target := by
  refine ⟨leads_of_mem_followers, ?_⟩
  rintro ⟨id, link, hget, rfl, rfl⟩
  rw [followers, List.mem_append]
  cases hhandle : link.handle with
  | child => exact .inl (mem_children.2 ⟨id, link, hget, rfl, hhandle, rfl⟩)
  | next =>
    right
    have hmem : (id, link) ∈ g.outgoing link.source .next := mem_outgoing.2 ⟨hget, rfl, hhandle⟩
    cases hout : g.outgoing link.source .next with
    | nil => simp [hout] at hmem
    | cons first rest =>
      have heq : (id, link) = first :=
        eq_of_length_le_one (hg.oneNext link.source) hmem (by simp [hout])
      simp [successor?, hout, ← heq]

end Shaped

end Graph

end CommandBlocks
