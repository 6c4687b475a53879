import CommandBlocks.Graph.Connecting
import CommandBlocks.Proofs.Graph.Counting

namespace CommandBlocks

/-- An operation that changes a graph in place. Whether it succeeds or fails, it leaves a graph
    behind. -/
abbrev InPlace (ε α : Type) := ExceptT ε (StateM Graph) α

namespace InPlace

variable {ε α β : Type} {g : Graph}

/-- The outcome of an operation on a graph, and the graph that it leaves behind. -/
def on (op : InPlace ε α) (g : Graph) : Except ε α × Graph := Id.run (op.run.run g)

/-- What an operation that gives a new graph does in place: when it fails, the graph stays. -/
def settle (g : Graph) : Except ε (α × Graph) → Except ε α × Graph
  | .ok (a, h) => (.ok a, h)
  | .error fault => (.error fault, g)

/-- An operation that starts by looking at the graph goes on with the graph that it is done on. -/
theorem on_get_bind (rest : Graph → InPlace ε α) (g : Graph) :
    (get >>= rest).on g = (rest g).on g := rfl

/-- After an operation that succeeds, the rest is done on the graph that it leaves behind. -/
theorem on_bind_of_ok {op : InPlace ε α} {a : α} {h : Graph} (hop : op.on g = (.ok a, h))
    (rest : α → InPlace ε β) : (op >>= rest).on g = (rest a).on h := by
  change (ExceptT.bindCont rest (op.on g).1 : StateM Graph (Except ε β)) (op.on g).2 = _
  rw [hop]
  rfl

/-- After an operation that fails, nothing else is done, and its graph stays. -/
theorem on_bind_of_error {op : InPlace ε α} {fault : ε} {h : Graph}
    (hop : op.on g = (.error fault, h)) (rest : α → InPlace ε β) :
    (op >>= rest).on g = (.error fault, h) := by
  change (ExceptT.bindCont rest (op.on g).1 : StateM Graph (Except ε β)) (op.on g).2 = _
  rw [hop]
  rfl

/-- The operation with another name for its failure. -/
def rename {ε' : Type} (f : ε → ε') (op : InPlace ε α) : InPlace ε' α := ExceptT.adapt f op

/-- An answer that is made of an outcome comes with the same graph, and so does a failure under
    another name. -/
theorem on_answer {ε' : Type} {op : InPlace ε α} {made : Except ε (α × Graph)}
    (hop : op.on g = settle g made) (f : ε → ε') (answer : α → β) :
    (do return answer (← op.rename f) : InPlace ε' β).on g =
      settle g ((made.mapError f).map fun (a, h) => (answer a, h)) := by
  have hrename : (op.rename f).on g = ((op.on g).1.mapError f, (op.on g).2) := rfl
  rw [hop] at hrename
  cases made with
  | error fault => exact on_bind_of_error hrename _
  | ok result => exact on_bind_of_ok hrename _

/-- Takes a block out of the graph, if it is there. -/
def takeBlock (id : BlockId) : InPlace ε (Option Block) :=
  modifyGet fun g => (g.blocks.get? id, { g with blocks := g.blocks.erase id })

/-- Takes a link out of the graph, if it is there. -/
def takeLink (id : LinkId) : InPlace ε (Option Link) :=
  modifyGet fun g => (g.links.get? id, { g with links := g.links.erase id })

/-- Counts the children of a block again. -/
def recountOne (id : BlockId) : InPlace ε Unit :=
  modify fun g => { g with blocks := Graph.recountWhere g.blocks g.links (· == id) }

def addBlock (kind : Kind) : InPlace ε BlockId := do
  let id := (← get).nextBlock
  modify fun g => { g with nextBlock := g.nextBlock.next }
  modify fun g => { g with blocks := g.blocks.insert id { kind } }
  return id

/-- Takes a link away, and counts the children of its source again if it was one of their links. -/
def dropLink (id : LinkId) : InPlace ε Unit := do
  if let some link ← takeLink id then
    if link.handle = .child then recountOne link.source

/-- The block is taken away first, and then its links one after the other. -/
def removeBlock (id : BlockId) : InPlace GraphFault Block := do
  let some block ← takeBlock id | throw (.noBlock id)
  let incident := (← get).links.filter fun _ link => link.source = id ∨ link.target = id
  incident.keys.forM dropLink
  return block

def setValue (id : BlockId) (name : String) (value : Value) : InPlace GraphFault Unit := do
  let some block := (← get).blocks.get? id | throw (.noBlock id)
  let some input := block.kind.inputNamed? name | throw (.unknownParameter id block.kind name)
  let changed := { block with values := block.values.insert input.parameter value }
  modify fun g => { g with blocks := g.blocks.insert id changed }

def clearValue (id : BlockId) (name : String) : InPlace GraphFault (Option Value) := do
  let some block := (← get).blocks.get? id | throw (.noBlock id)
  let some parameter := Parameter.ofName? name | return none
  let cleared := { block with values := block.values.erase parameter }
  modify fun g => { g with blocks := g.blocks.insert id cleared }
  return block.values.get? parameter

def drawLink (link : Link) : InPlace ε LinkId := do
  let id := (← get).nextLink
  modify fun g => { g with nextLink := g.nextLink.next }
  modify fun g => { g with links := g.links.insert id link }
  if link.handle = .child then recountOne link.source
  return id

def addLink (link : Link) : InPlace Refusal LinkId := do
  if let some refusal := (← get).refusal? link then throw refusal
  drawLink link

def removeLink (id : LinkId) : InPlace GraphFault Link := do
  let some link ← takeLink id | throw (.noLink id)
  if link.handle = .child then recountOne link.source
  return link

theorem on_addBlock (kind : Kind) (g : Graph) :
    (addBlock kind : InPlace ε BlockId).on g = (.ok (g.addBlock kind).1, (g.addBlock kind).2) := rfl

/-- What comes after counting the children of a block again, or not counting them, is done on the
    graph with the new count, or with the old one. -/
theorem on_recountOne_bind (c : Prop) [Decidable c] (id : BlockId) (rest : PUnit → InPlace ε α)
    (g : Graph) : (if c then recountOne id >>= rest else rest ⟨⟩).on g =
      (rest ⟨⟩).on { g with
        blocks := if c then Graph.recountWhere g.blocks g.links (· == id) else g.blocks } := by
  by_cases hc : c
  · rw [if_pos hc, if_pos hc]
    rfl
  · rw [if_neg hc, if_neg hc]

/-- Drawing a link in place never fails. -/
theorem on_drawLink (link : Link) (g : Graph) :
    (drawLink link : InPlace ε LinkId).on g = (.ok (g.drawLink link).1, (g.drawLink link).2) :=
  on_recountOne_bind (link.handle = .child) link.source (fun _ => return g.nextLink)
    { g with links := g.links.insert g.nextLink link, nextLink := g.nextLink.next }

/-- Adding a link in place makes the graph with the link, or is refused before it changes
    anything. -/
theorem on_addLink (link : Link) (g : Graph) :
    (addLink link).on g = settle g (g.addLink link) := by
  rw [addLink, on_get_bind, Graph.addLink]
  cases g.refusal? link with
  | some refusal => rfl
  | none => exact on_drawLink link g

theorem on_setValue (id : BlockId) (name : String) (value : Value) (g : Graph) :
    (setValue id name value).on g = settle g ((g.setValue id name value).map ((), ·)) := by
  rw [setValue, on_get_bind, Graph.setValue]
  cases g.blocks.get? id with
  | none => rfl
  | some block =>
    dsimp only
    cases block.kind.inputNamed? name with
    | none => rfl
    | some input => rfl

theorem on_clearValue (id : BlockId) (name : String) (g : Graph) :
    (clearValue id name).on g = settle g (g.clearValue id name) := by
  rw [clearValue, on_get_bind, Graph.clearValue]
  cases g.blocks.get? id with
  | none => rfl
  | some block =>
    cases Parameter.ofName? name with
    | none => rfl
    | some parameter => rfl

/-- Removing a link in place makes the graph without the link. Where there is none, taking it out
    first changes nothing. -/
theorem on_removeLink (id : LinkId) (g : Graph) :
    (removeLink id).on g = settle g (g.removeLink id) := by
  rw [removeLink, on_bind_of_ok (show (takeLink id).on g = (.ok (g.links.get? id), _) from rfl),
    Graph.removeLink]
  cases hlink : g.links.get? id with
  | none =>
    rw [Table.erase_eq_self hlink]
    rfl
  | some link => exact on_recountOne_bind (link.handle = .child) link.source _ _

/-- Whether a link of a table is one by which a block holds a child. -/
def holdsBy (links : Table LinkId Link) (parent : BlockId) (k : LinkId) : Bool :=
  (links.get? k).any fun link => decide (link.handle = .child) && parent == link.source

/-- Taking away one link counts the children of its source again if it was one of their links. -/
theorem on_dropLink (k : LinkId) (g : Graph) : (dropLink k : InPlace ε Unit).on g =
    (.ok (), { g with
      blocks := Graph.recountWhere g.blocks (g.links.erase k) (holdsBy g.links · k),
      links := g.links.erase k }) := by
  rw [dropLink, on_bind_of_ok (show (takeLink k).on g = (.ok (g.links.get? k), _) from rfl)]
  unfold holdsBy
  cases g.links.get? k with
  | none =>
    rw [Graph.recountWhere_eq_self fun _ _ _ hnone => by cases hnone]
    rfl
  | some link =>
    simp only [Option.any_some, ← Graph.ite_recountWhere]
    exact on_recountOne_bind (link.handle = .child) link.source _ _

/-- To take away one link and then others is to take them away together. -/
theorem filter_erase (links : Table LinkId Link) (k : LinkId) (ks : List LinkId) :
    (links.erase k).filter (fun k' _ => !ks.contains k') =
      links.filter fun k' _ => !(k :: ks).contains k' := by
  apply Table.eq_of_get?
  intro k'
  rw [Table.get?_filter, Table.get?_filter, Table.get?_erase, List.contains_cons]
  by_cases hk : k' = k
  · cases links.get? k' <;> simp [hk]
  · simp [hk, beq_eq_false_iff_ne.2 hk]

/-- A block holds a child by a link if the link leaves it by its child handle. -/
theorem holdsBy_iff {links : Table LinkId Link} {parent : BlockId} {k : LinkId} :
    holdsBy links parent k = true ↔
      ∃ link, links.get? k = some link ∧ link.handle = .child ∧ link.source = parent := by
  rw [holdsBy, Option.any_eq_true]
  simp only [Bool.and_eq_true, decide_eq_true_eq, beq_iff_eq, eq_comm (a := parent)]

/-- A block holds a child by one of several links if it does by the first, or by one of the others
    once the first is gone. -/
theorem any_holdsBy_erase (links : Table LinkId Link) (parent : BlockId) (k : LinkId)
    (ks : List LinkId) :
    (holdsBy links parent k || ks.any (holdsBy (links.erase k) parent)) =
      (k :: ks).any (holdsBy links parent) := by
  rw [List.any_cons, Bool.eq_iff_iff, Bool.or_eq_true, Bool.or_eq_true, List.any_eq_true,
    List.any_eq_true]
  simp only [holdsBy_iff, Table.get?_erase_eq_some]
  constructor
  · rintro (hfirst | ⟨k', hk', link, ⟨-, hlink⟩, hchild⟩)
    · exact .inl hfirst
    · exact .inr ⟨k', hk', link, hlink, hchild⟩
  · rintro (hfirst | ⟨k', hk', link, hlink, hchild⟩)
    · exact .inl hfirst
    · by_cases hsame : k' = k
      · exact .inl ⟨link, hsame ▸ hlink, hchild⟩
      · exact .inr ⟨k', hk', link, ⟨hsame, hlink⟩, hchild⟩

/-- Links that are taken away one after the other are gone, and the blocks that held a child by one
    of them are counted again. The order of the links does not show. -/
theorem on_dropLinks (ks : List LinkId) (g : Graph) :
    (ks.forM dropLink : InPlace ε Unit).on g =
      (.ok (), { g with
        blocks := Graph.recountWhere g.blocks (g.links.filter fun k _ => !ks.contains k)
          fun id => ks.any (holdsBy g.links id),
        links := g.links.filter fun k _ => !ks.contains k }) := by
  -- each link changes the graph, so the induction speaks of all graphs to start from
  induction ks generalizing g with
  | nil =>
    have hlinks : g.links.filter (fun k _ => !([] : List LinkId).contains k) = g.links := by
      apply Table.eq_of_get?
      intro k
      rw [Table.get?_filter]
      cases g.links.get? k <;> rfl
    rw [hlinks, Graph.recountWhere_eq_self fun _ _ _ hnone => by cases hnone]
    rfl
  | cons k ks ih =>
    change (dropLink k >>= fun _ => ks.forM dropLink).on g = _
    rw [on_bind_of_ok (on_dropLink k g), ih]
    dsimp only
    rw [Graph.recountWhere_recountWhere_or, filter_erase]
    · simp only [any_holdsBy_erase]
    · intro id _ hnone
      apply Graph.nestedIn_congr
      intro k' link hsource hchild
      rw [Table.get?_filter_eq_some, Bool.not_eq_true', List.contains_eq_mem,
        decide_eq_false_iff_not]
      refine ⟨fun hlink => ⟨hlink, fun hk' => ?_⟩, And.left⟩
      exact Bool.eq_false_iff.1 hnone
        (List.any_eq_true.2 ⟨k', hk', holdsBy_iff.2 ⟨link, hlink, hchild, hsource⟩⟩)

/-- The links of a block that are taken away are those of the others that stay behind. -/
theorem filter_not_incident (links : Table LinkId Link) (p : Link → Bool) :
    links.filter (fun k _ => !(links.filter fun _ link => p link).keys.contains k) =
      links.filter fun _ link => !p link := by
  apply Table.eq_of_get?
  intro k
  have hcontains : (links.filter fun _ link => p link).keys.contains k = (links.get? k).any p := by
    rw [Bool.eq_iff_iff, List.contains_iff_mem, Table.mem_keys, Table.contains, Table.get?_filter]
    cases links.get? k with
    | none => simp
    | some link => simp [Option.filter]
  rw [Table.get?_filter, Table.get?_filter, hcontains]
  cases links.get? k with
  | none => rfl
  | some link => rfl

/-- A block holds a child by a link that is taken away if such a link is among those of the
    graph. -/
theorem any_incident (links : Table LinkId Link) (p : Link → Bool) (parent : BlockId) :
    (links.filter fun _ link => p link).keys.any (holdsBy links parent) =
      links.values.any fun link => p link && link.source == parent && link.handle == .child := by
  rw [Bool.eq_iff_iff, List.any_eq_true, List.any_eq_true]
  simp only [Table.mem_keys, Table.contains_iff, Table.mem_values, Table.get?_filter_eq_some,
    holdsBy_iff, Bool.and_eq_true, beq_iff_eq]
  constructor
  · rintro ⟨k, ⟨found, hfound, hp⟩, link, hlink, hchild, hsource⟩
    obtain rfl := Option.some.inj (hfound.symm.trans hlink)
    exact ⟨found, ⟨k, hfound⟩, ⟨hp, hsource⟩, hchild⟩
  · rintro ⟨link, ⟨k, hlink⟩, ⟨hp, hsource⟩, hchild⟩
    exact ⟨k, ⟨link, hlink, hp⟩, link, hlink, hchild, hsource⟩

/-- Removing a block in place, link by link, makes the graph without the block and its links. Where
    there is none, taking it out first changes nothing. -/
theorem on_removeBlock (id : BlockId) (g : Graph) :
    (removeBlock id).on g = settle g (g.removeBlock id) := by
  rw [removeBlock, on_bind_of_ok (show (takeBlock id).on g = (.ok (g.blocks.get? id), _) from rfl),
    Graph.removeBlock]
  cases hblock : g.blocks.get? id with
  | none =>
    rw [Table.erase_eq_self hblock]
    rfl
  | some block =>
    dsimp only
    rw [on_get_bind, on_bind_of_ok (on_dropLinks _ _)]
    dsimp only
    rw [filter_not_incident]
    simp only [any_incident]
    rfl

end InPlace

end CommandBlocks
