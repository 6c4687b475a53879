import CommandBlocks.Proofs.Graph.Links

namespace CommandBlocks.Graph

variable {g h : Graph} {blocks : Table BlockId Block} {links others : Table LinkId Link}
  {id : BlockId}

theorem nestedIn_eq_size (links : Table LinkId Link) (id : BlockId) :
    nestedIn links id =
      (links.filter fun _ link => decide (link.source = id ∧ link.handle = .child)).size := by
  rw [nestedIn, Table.values, List.countP_map, List.countP_eq_length_filter, Table.size]
  rfl

/-- Losing links never adds a nested block. -/
theorem nestedIn_le_of_get?
    (hsub : ∀ k link, others.get? k = some link → link.source = id → link.handle = .child →
      links.get? k = some link) :
    nestedIn others id ≤ nestedIn links id := by
  rw [nestedIn_eq_size, nestedIn_eq_size]
  apply Table.size_le_of_get?
  intro k link hget
  rw [Table.get?_filter_eq_some, decide_eq_true_eq] at hget ⊢
  obtain ⟨hother, hsource, hhandle⟩ := hget
  exact ⟨hsub k link hother hsource hhandle, hsource, hhandle⟩

/-- Only the links that leave a block's child handle matter to its child count. -/
theorem nestedIn_congr
    (hsame : ∀ k link, link.source = id → link.handle = .child →
      (links.get? k = some link ↔ others.get? k = some link)) :
    nestedIn links id = nestedIn others id := by
  apply Nat.le_antisymm
  · exact nestedIn_le_of_get? fun k link hget hsource hhandle =>
      (hsame k link hsource hhandle).1 hget
  · exact nestedIn_le_of_get? fun k link hget hsource hhandle =>
      (hsame k link hsource hhandle).2 hget

/-- A block from which no link leaves holds no blocks. -/
theorem nestedIn_eq_zero
    (hnone : ∀ k link, links.get? k = some link → link.source ≠ id) : nestedIn links id = 0 := by
  rw [nestedIn, List.countP_eq_zero]
  intro link hmem
  obtain ⟨k, hget⟩ := Table.mem_values.1 hmem
  simp [hnone k link hget]

/-- A new link adds one to the blocks that its source holds, if it leaves it by its child handle. -/
theorem nestedIn_insert {k : LinkId} (hfresh : links.get? k = none) (link : Link) :
    nestedIn (links.insert k link) id =
      nestedIn links id + if link.source = id ∧ link.handle = .child then 1 else 0 := by
  rw [nestedIn, (Table.perm_values_insert hfresh link).countP_eq, List.countP_cons]
  simp only [decide_eq_true_eq]
  rfl

theorem length_incoming (g : Graph) (id : BlockId) :
    (g.incoming id).length = g.links.values.countP fun link => link.target = id := by
  rw [incoming, Table.values, List.countP_map, List.countP_eq_length_filter]
  rfl

/-- The links that leave a block by a handle are counted in the listing of all links. -/
theorem length_outgoing (g : Graph) (id : BlockId) (handle : Handle) :
    (g.outgoing id handle).length =
      g.links.values.countP fun link => link.source = id ∧ link.handle = handle := by
  rw [outgoing, Table.values, List.countP_map, List.countP_eq_length_filter]
  rfl

/-- A link leaves a block by one handle or the other. -/
theorem length_successors (g : Graph) (id : BlockId) :
    (g.successors id).length = (g.outgoing id .child).length + (g.outgoing id .next).length := by
  rw [length_outgoing, length_outgoing, successors, targetsFrom, List.length_map,
    ← List.countP_eq_length_filter]
  induction g.links.values with
  | nil => rfl
  | cons link links ih =>
    rw [List.countP_cons, List.countP_cons, List.countP_cons, ih]
    cases link.handle <;> simp <;> omega

/-- No block has more followers than links that leave it. -/
theorem length_followers_le (g : Graph) (id : BlockId) :
    (g.followers id).length ≤ (g.successors id).length := by
  have hnext : (g.successor? id).toList.length ≤ (g.outgoing id .next).length := by
    rw [successor?]
    cases g.outgoing id .next <;> simp
  rw [followers, List.length_append, length_successors, children, List.length_map]
  exact Nat.add_le_add_left hnext _

/-- A new link adds one to the links that leave its source by its handle. -/
theorem length_outgoing_insert {k : LinkId} (hfresh : g.links.get? k = none) (link : Link)
    (hlinks : h.links = g.links.insert k link) (id : BlockId) (handle : Handle) :
    (h.outgoing id handle).length =
      (g.outgoing id handle).length + if link.source = id ∧ link.handle = handle then 1 else 0 := by
  rw [length_outgoing, length_outgoing, hlinks, (Table.perm_values_insert hfresh link).countP_eq,
    List.countP_cons]
  simp only [decide_eq_true_eq]

theorem length_incoming_insert {k : LinkId} (hfresh : g.links.get? k = none) (link : Link)
    (hlinks : h.links = g.links.insert k link) (id : BlockId) :
    (h.incoming id).length = (g.incoming id).length + if link.target = id then 1 else 0 := by
  rw [length_incoming, length_incoming, hlinks, (Table.perm_values_insert hfresh link).countP_eq,
    List.countP_cons]
  simp only [decide_eq_true_eq]

section Recount

/-- Counting again changes nothing about a block but its child count. -/
theorem get?_recountWhere (blocks : Table BlockId Block) (links : Table LinkId Link)
    (p : BlockId → Bool) (id : BlockId) :
    (recountWhere blocks links p).get? id = (blocks.get? id).map fun block =>
      if p id then { block with childCount := nestedIn links id } else block := by
  rw [recountWhere, Table.get?_map]

@[simp] theorem contains_recountWhere (p : BlockId → Bool) :
    (recountWhere blocks links p).contains id = blocks.contains id := by
  rw [recountWhere, Table.contains_map]

/-- Counting again changes nothing about a block but its child count. -/
theorem of_get?_recountWhere {p : BlockId → Bool} {block : Block}
    (hget : (recountWhere blocks links p).get? id = some block) :
    ∃ old, blocks.get? id = some old ∧ block.kind = old.kind ∧ block.values = old.values ∧
      block.childCount = if p id then nestedIn links id else old.childCount := by
  rw [get?_recountWhere, Option.map_eq_some_iff] at hget
  obtain ⟨old, hold, rfl⟩ := hget
  by_cases hp : p id = true
  · exact ⟨old, hold, by simp [hp], by simp [hp], by simp [hp]⟩
  · exact ⟨old, hold, by simp [hp], by simp [hp], by simp [hp]⟩

/-- Counting again keeps each block and its kind. -/
theorem exists_get?_recountWhere {p : BlockId → Bool} {old : Block}
    (hold : blocks.get? id = some old) :
    ∃ block, (recountWhere blocks links p).get? id = some block ∧ block.kind = old.kind := by
  rw [get?_recountWhere, hold]
  refine ⟨_, rfl, ?_⟩
  by_cases hp : p id = true
  · simp [hp]
  · simp [hp]

/-- What was counted before does not matter to what is counted again. -/
theorem recountWhere_recountWhere (blocks : Table BlockId Block)
    (links others : Table LinkId Link) (p : BlockId → Bool) :
    recountWhere (recountWhere blocks others p) links (fun _ => true) =
      recountWhere blocks links fun _ => true := by
  apply Table.eq_of_get?
  intro id
  rw [get?_recountWhere, get?_recountWhere, get?_recountWhere, Option.map_map]
  congr 1
  funext block
  by_cases hp : p id = true
  · simp [hp]
  · simp [hp]

/-- Counting twice is counting once, if the second time no count has changed that is only counted
    the first time. -/
theorem recountWhere_recountWhere_or {p q : BlockId → Bool}
    (hsame : ∀ id, p id = true → q id = false → nestedIn links id = nestedIn others id) :
    recountWhere (recountWhere blocks links p) others q =
      recountWhere blocks others fun id => p id || q id := by
  apply Table.eq_of_get?
  intro id
  rw [get?_recountWhere, get?_recountWhere, get?_recountWhere, Option.map_map]
  congr 1
  funext block
  by_cases hq : q id = true
  · by_cases hp : p id = true
    · simp [hp, hq]
    · simp [hp, hq]
  · by_cases hp : p id = true
    · simp [hp, hq, hsame id hp (Bool.eq_false_iff.2 hq)]
    · simp [hp, hq]

/-- Counting does not look at the identifiers of links. -/
theorem recountWhere_congr {p : BlockId → Bool} (hperm : links.values.Perm others.values) :
    recountWhere blocks links p = recountWhere blocks others p := by
  have hnested : nestedIn links = nestedIn others := funext fun id => hperm.countP_eq _
  rw [recountWhere, hnested]
  rfl

/-- Counting changes nothing where the counts are right already. -/
theorem recountWhere_eq_self {p : BlockId → Bool}
    (hcounts : ∀ id block, blocks.get? id = some block → p id = true →
      block.childCount = nestedIn links id) : recountWhere blocks links p = blocks := by
  apply Table.eq_of_get?
  intro id
  rw [get?_recountWhere]
  cases hget : blocks.get? id with
  | none => rfl
  | some block =>
    by_cases hp : p id = true
    · rw [Option.map_some, if_pos hp, ← hcounts id block hget hp]
    · rw [Option.map_some, if_neg hp]

theorem ite_recountWhere (c : Prop) [Decidable c] (p : BlockId → Bool) :
    (if c then recountWhere blocks links p else blocks) =
      recountWhere blocks links fun id => decide c && p id := by
  by_cases hc : c
  · simp [hc]
  · rw [if_neg hc]
    refine (recountWhere_eq_self fun id block _ hp => ?_).symm
    simp [hc] at hp

/-- It is enough to count again the blocks whose counts no longer fit. -/
theorem wellFormed_recountWhere {p : BlockId → Bool} {nextBlock : BlockId} {nextLink : LinkId}
    (hends : ∀ k link, links.get? k = some link →
      blocks.contains link.source = true ∧ blocks.contains link.target = true)
    (hcounts : ∀ id block, blocks.get? id = some block → p id = false →
      block.childCount = nestedIn links id) :
    WellFormed ⟨recountWhere blocks links p, links, nextBlock, nextLink⟩ := by
  apply wellFormed_of_get?
  · intro k link hget
    rw [contains_recountWhere, contains_recountWhere]
    exact hends k link hget
  · intro id block hget
    obtain ⟨old, hold, -, -, hcount⟩ := of_get?_recountWhere hget
    by_cases hp : p id = true
    · rw [hcount, if_pos hp]
    · rw [hcount, if_neg hp]
      exact hcounts id old hold (Bool.eq_false_iff.2 hp)

/-- A well-formed graph has nothing to count again. -/
theorem WellFormed.recount_eq (hg : g.WellFormed) : g.recount = g := by
  have hblocks : recountWhere g.blocks g.links (fun _ => true) = g.blocks :=
    recountWhere_eq_self fun id block hget _ => hg.childCount_eq hget
  rw [recount, hblocks]

end Recount

end CommandBlocks.Graph
