import CommandBlocks.Compilation
import CommandBlocks.Proofs.Tables

namespace CommandBlocks

theorem Id.compare_eq_lt_iff {named : Named} {i j : Id named} :
    compare i j = .lt ↔ i.number < j.number := Std.compare_eq_lt (α := UInt64)

/-- A table under identifiers is listed by ascending numbers. -/
theorem Table.number_ascending {named : Named} {α : Type} (t : Table (Id named) α) :
    t.entries.Pairwise fun x y => x.1.number < y.1.number :=
  t.ascending.imp Id.compare_eq_lt_iff.1

/-- The identifiers of a table are listed in ascending order. -/
theorem Table.keys_ascending {named : Named} {α : Type} (t : Table (Id named) α) :
    t.keys.Pairwise fun i j => i.number < j.number :=
  List.pairwise_map.2 t.number_ascending

namespace Graph

variable {g : Graph}

/-- A link leads from one block to another, by either handle. -/
def Leads (g : Graph) (source target : BlockId) : Prop :=
  ∃ id link, g.links.get? id = some link ∧ link.source = source ∧ link.target = target

/-- Every link joins blocks of the graph, and every block counts the links that leave its child
    handle. -/
structure WellFormed (g : Graph) : Prop where
  ends : ∀ x ∈ g.links.entries, g.blocks.contains x.2.source ∧ g.blocks.contains x.2.target
  counts : ∀ x ∈ g.blocks.entries, x.2.childCount = (g.outgoing x.1 .child).length

theorem mem_outgoing {source : BlockId} {handle : Handle} {id : LinkId} {link : Link} :
    (id, link) ∈ g.outgoing source handle ↔
      g.links.get? id = some link ∧ link.source = source ∧ link.handle = handle := by
  simp [outgoing, Table.mem_entries_iff]

/-- The links that leave a block are listed in the ascending order of their identifiers. -/
theorem outgoing_ascending (g : Graph) (source : BlockId) (handle : Handle) :
    (g.outgoing source handle).Pairwise fun x y => x.1.number < y.1.number :=
  g.links.number_ascending.filter _

/-- The links that end at a block are listed in the ascending order of their identifiers. -/
theorem incoming_ascending (g : Graph) (target : BlockId) :
    (g.incoming target).Pairwise fun x y => x.1.number < y.1.number :=
  g.links.number_ascending.filter _

theorem mem_incoming {target : BlockId} {id : LinkId} {link : Link} :
    (id, link) ∈ g.incoming target ↔ g.links.get? id = some link ∧ link.target = target := by
  simp [incoming, Table.mem_entries_iff]

theorem leads_iff_mem_values {source target : BlockId} :
    g.Leads source target ↔
      ∃ link ∈ g.links.values, link.source = source ∧ link.target = target := by
  simp only [Leads, Table.mem_values]
  constructor
  · rintro ⟨id, link, hget, hsource, htarget⟩
    exact ⟨link, ⟨id, hget⟩, hsource, htarget⟩
  · rintro ⟨link, ⟨id, hget⟩, hsource, htarget⟩
    exact ⟨id, link, hget, hsource, htarget⟩

theorem mem_successors {source target : BlockId} :
    target ∈ g.successors source ↔ g.Leads source target := by
  simp only [leads_iff_mem_values, successors, targetsFrom, List.mem_map, List.mem_filter,
    decide_eq_true_eq, and_assoc]

/-- To be a successor, as a relation, is to be led to. -/
theorem mem_successors_eq (g : Graph) : (fun a b => b ∈ g.successors a) = g.Leads := by
  funext a b
  exact propext mem_successors

/-- The children of a block are the targets of the links that leave it by its child handle. -/
theorem mem_children {source target : BlockId} :
    target ∈ g.children source ↔ ∃ id link, g.links.get? id = some link ∧
      link.source = source ∧ link.handle = .child ∧ link.target = target := by
  simp only [children, List.mem_map, Prod.exists, mem_outgoing, and_assoc]

/-- The children of a block are the targets of its child links, in the ascending order of the links'
    identifiers. -/
theorem children_ascending (g : Graph) (id : BlockId) :
    ∃ links : List (LinkId × Link), g.children id = links.map (·.2.target) ∧
      (∀ k link, (k, link) ∈ links ↔
        g.links.get? k = some link ∧ link.source = id ∧ link.handle = .child) ∧
      links.Pairwise fun x y => x.1.number < y.1.number :=
  ⟨g.outgoing id .child, rfl, fun _ _ => mem_outgoing, g.outgoing_ascending id .child⟩

/-- The roots are the blocks to which no block leads. -/
theorem mem_roots {id : BlockId} :
    id ∈ g.roots ↔ g.blocks.contains id = true ∧ ∀ source, ¬ g.Leads source id := by
  simp only [roots, List.mem_filter, Table.mem_keys, List.isEmpty_iff, Leads,
    List.eq_nil_iff_forall_not_mem, Prod.forall, mem_incoming]
  refine and_congr_right fun _ => ⟨fun hnone source => ?_, fun hnone k link => ?_⟩
  · rintro ⟨k, link, hget, -, htarget⟩
    exact hnone k link ⟨hget, htarget⟩
  · rintro ⟨hget, htarget⟩
    exact hnone link.source ⟨k, link, hget, rfl, htarget⟩

/-- The roots are listed in the ascending order of their identifiers. -/
theorem roots_ascending (g : Graph) : g.roots.Pairwise fun i j => i.number < j.number :=
  g.blocks.keys_ascending.filter _

theorem nodup_roots (g : Graph) : g.roots.Nodup := g.blocks.nodup_keys.filter _

theorem nestedIn_eq_length (g : Graph) (id : BlockId) :
    nestedIn g.links id = (g.outgoing id .child).length := by
  rw [nestedIn, Table.values, List.countP_map, List.countP_eq_length_filter, outgoing]
  rfl

/-- The blocks that come next in a reading of a block's statement: those nested in it and then the
    one that runs after it. -/
def followers (g : Graph) (id : BlockId) : List BlockId :=
  g.children id ++ (g.successor? id).toList

/-- The next block of a block is the target of a link that leaves it by its next handle. -/
theorem successor?_mem {source target : BlockId} (hnext : g.successor? source = some target) :
    ∃ id link, g.links.get? id = some link ∧
      link.source = source ∧ link.handle = .next ∧ link.target = target := by
  rw [successor?, Option.map_eq_some_iff] at hnext
  obtain ⟨⟨id, link⟩, hhead, rfl⟩ := hnext
  obtain ⟨hget, hsource, hhandle⟩ := mem_outgoing.1 (List.mem_of_mem_head? hhead)
  exact ⟨id, link, hget, hsource, hhandle, rfl⟩

/-- A block leads to each of its followers. -/
theorem leads_of_mem_followers {source target : BlockId} (hmem : target ∈ g.followers source) :
    g.Leads source target := by
  obtain hchild | hnext := List.mem_append.1 hmem
  · obtain ⟨id, link, hget, hsource, -, htarget⟩ := mem_children.1 hchild
    exact ⟨id, link, hget, hsource, htarget⟩
  · obtain ⟨id, link, hget, hsource, -, htarget⟩ := successor?_mem (Option.mem_toList.1 hnext)
    exact ⟨id, link, hget, hsource, htarget⟩

namespace WellFormed

theorem contains_source (hg : g.WellFormed) {id : LinkId} {link : Link}
    (hget : g.links.get? id = some link) : g.blocks.contains link.source = true :=
  (hg.ends _ (Table.mem_entries_iff.2 hget)).1

theorem contains_target (hg : g.WellFormed) {id : LinkId} {link : Link}
    (hget : g.links.get? id = some link) : g.blocks.contains link.target = true :=
  (hg.ends _ (Table.mem_entries_iff.2 hget)).2

theorem childCount_eq (hg : g.WellFormed) {id : BlockId} {block : Block}
    (hget : g.blocks.get? id = some block) : block.childCount = nestedIn g.links id := by
  rw [nestedIn_eq_length]
  exact hg.counts _ (Table.mem_entries_iff.2 hget)

/-- In a well-formed graph, blocks lead to blocks. -/
theorem contains_of_leads (hg : g.WellFormed) {source target : BlockId}
    (hleads : g.Leads source target) :
    g.blocks.contains source = true ∧ g.blocks.contains target = true := by
  obtain ⟨id, link, hget, rfl, rfl⟩ := hleads
  exact ⟨hg.contains_source hget, hg.contains_target hget⟩

end WellFormed

/-- Looking up keys is enough to see that a graph is well formed. -/
theorem wellFormed_of_get?
    (hends : ∀ id link, g.links.get? id = some link →
      g.blocks.contains link.source = true ∧ g.blocks.contains link.target = true)
    (hcounts : ∀ id block, g.blocks.get? id = some block →
      block.childCount = nestedIn g.links id) : g.WellFormed where
  ends x hx := hends x.1 x.2 (Table.mem_entries_iff.1 hx)
  counts x hx := by
    rw [← nestedIn_eq_length]
    exact hcounts x.1 x.2 (Table.mem_entries_iff.1 hx)

end Graph

end CommandBlocks
