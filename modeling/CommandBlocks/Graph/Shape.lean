import CommandBlocks.Graph.Paths

namespace CommandBlocks

/-- How a graph's shape stops it from being compiled. -/
inductive ShapeFault where
  | severalParents (id : BlockId)
  | severalSuccessors (id : BlockId)
  | childrenNotAllowed (id : BlockId) (kind : Kind)
  | tooManyChildren (id : BlockId) (children limit : Nat)
  | cycle (id : BlockId)
  deriving DecidableEq, Repr

/-- The block at fault. -/
def ShapeFault.block : ShapeFault → BlockId
  | severalParents id | severalSuccessors id | childrenNotAllowed id _ | tooManyChildren id _ _
  | cycle id => id

def ShapeFault.message : ShapeFault → String
  | severalParents id => s!"Node {id.blockText} has more than one incoming connection"
  | severalSuccessors id =>
    s!"Node {id.blockText} has more than one outgoing sequential connection"
  | childrenNotAllowed id kind =>
    s!"Block '{kind.name}' of node {id.blockText} cannot have children"
  | tooManyChildren id children limit =>
    s!"Node {id.blockText} has {children} children, more than the maximum of {limit}"
  | cycle id => s!"The program graph contains a cycle through node {id.blockText}"

/-- The first identifier of a list that occurs earlier in it or among those already seen. -/
def firstRepeated (seen : List BlockId) : List BlockId → Option BlockId
  | [] => none
  | id :: rest => if id ∈ seen then some id else firstRepeated (id :: seen) rest

/-- A path that a search has walked, its last block first; with each block, those of its successors
    that are still to be looked at. -/
abbrev Trail := List (BlockId × List BlockId)

/-- A bound on the steps that a search can take along a trail without leaving it. -/
def Trail.weight : Trail → Nat
  | [] => 0
  | step :: trail => step.2.length + 1 + weight trail

/-- Searches on along a trail until its start is done with. A successor on the trail closes a cycle,
    and one that is fresh prolongs the trail; every other successor was done with before or is no
    block. Gives the blocks that are still fresh, or the block at which a cycle was closed. -/
def searchTrail (successors : BlockId → List BlockId) (fresh : List BlockId) :
    Trail → Except BlockId (List BlockId)
  | [] => .ok fresh
  | (_, []) :: trail => searchTrail successors fresh trail
  | (id, succ :: later) :: trail =>
    if succ ∈ id :: trail.map (·.1) then .error succ
    else if succ ∈ fresh then
      searchTrail successors (fresh.erase succ) ((succ, successors succ) :: (id, later) :: trail)
    else searchTrail successors fresh ((id, later) :: trail)
termination_by trail => (fresh.length, trail.weight)
decreasing_by
  · exact Prod.Lex.right _ (by simp [Trail.weight])
  · rename_i h
    have := List.length_erase_of_mem h
    have := List.length_pos_of_mem h
    exact Prod.Lex.left _ _ (by omega)
  · exact Prod.Lex.right _ (by simp [Trail.weight])

/-- Searches from each start that is still fresh when its turn comes. -/
def searchAll (successors : BlockId → List BlockId) (fresh : List BlockId) :
    List BlockId → Except BlockId (List BlockId)
  | [] => .ok fresh
  | start :: starts =>
    if start ∈ fresh then do
      let fresh ← searchTrail successors (fresh.erase start) [(start, successors start)]
      searchAll successors fresh starts
    else searchAll successors fresh starts

namespace Graph

/-- The first link, by its identifier, that ends where an earlier one does. -/
def severalParents? (g : Graph) : Option ShapeFault :=
  (firstRepeated [] (g.links.values.map (·.target))).map .severalParents

/-- The first link to a next block that leaves a block as an earlier one does. -/
def severalSuccessors? (g : Graph) : Option ShapeFault :=
  (firstRepeated [] ((g.links.values.filter (·.handle = .next)).map (·.source))).map
    .severalSuccessors

/-- What is wrong with the number of blocks nested in a block. -/
def excess? (id : BlockId) (block : Block) : Option ShapeFault :=
  match block.kind.capacity with
  | .closed => if 0 < block.childCount then some (.childrenNotAllowed id block.kind) else none
  | .atMost limit =>
    if limit < block.childCount then some (.tooManyChildren id block.childCount limit) else none
  | .unbounded => none

/-- The first block, by its identifier, with more nested blocks than its kind allows. -/
def overfull? (g : Graph) : Option ShapeFault :=
  g.blocks.entries.findSome? fun (id, block) => excess? id block

/-- The block at which a search through all blocks closes a cycle. -/
def cycle? (g : Graph) : Option ShapeFault :=
  match searchAll g.successors g.blocks.keys g.blocks.keys with
  | .ok _ => none
  | .error id => some (.cycle id)

/-- The first fault in a graph's shape, if there is one. -/
def shapeFault? (g : Graph) : Option ShapeFault :=
  g.severalParents? <|> g.severalSuccessors? <|> g.overfull? <|> g.cycle?

end Graph

end CommandBlocks
