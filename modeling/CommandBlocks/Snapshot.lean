import CommandBlocks.Graph

namespace CommandBlocks

/-- A block and the values entered for it, under the names of their parameters. -/
structure BlockRecord where
  id : BlockId
  kind : Kind
  values : List (String × Value)
  deriving DecidableEq, Repr

structure LinkRecord where
  id : LinkId
  link : Link
  deriving DecidableEq, Repr

/-- Plain records of a graph's blocks and links, and its counters. The records of a graph come in
    the order of their identifiers, but any others may be restored. -/
structure Snapshot where
  blocks : List BlockRecord
  links : List LinkRecord
  nextBlock : BlockId
  nextLink : LinkId
  deriving DecidableEq, Repr

/-- The records of a graph. -/
def Graph.snapshot (g : Graph) : Snapshot where
  blocks := g.blocks.entries.map fun (id, block) =>
    ⟨id, block.kind, block.values.entries.map fun (parameter, value) => (parameter.name, value)⟩
  links := g.links.entries.map fun (id, link) => ⟨id, link⟩
  nextBlock := g.nextBlock
  nextLink := g.nextLink

/-- The greatest counter that a restored graph may have. It leaves room to count on. -/
def maxRestoredId : UInt64 := 0x7FFFFFFFFFFFFFFF

/-- A counter that a restored graph may have. -/
def Id.asCounter {named : Named} (i : Id named) : Except GraphFault (Id named) :=
  if i.number ≤ maxRestoredId then .ok i else .error (.idOutOfRange i.number)

/-- The counter that follows an identifier that a restored graph may have. -/
def Id.nextCounter {named : Named} (i : Id named) : Except GraphFault (Id named) :=
  if i.number < maxRestoredId then .ok i.next else .error (.idOutOfRange i.number)

instance {named : Named} : Max (Id named) := ⟨fun i j => ⟨max i.number j.number⟩⟩

namespace Snapshot

/-- The values of a record under their parameters. Of values with one name the last is kept. -/
def restoreValues (id : BlockId) (kind : Kind) (values : List (String × Value)) :
    Except GraphFault (Table Parameter Value) :=
  values.foldlM (fun table (name, value) =>
    match kind.inputNamed? name with
    | none => .error (.unknownParameter id kind name)
    | some input => .ok (table.insert input.parameter value)) ∅

/-- Adds the block of a record to those restored before, and keeps the counter above it. -/
def restoreBlock (done : Table BlockId Block × BlockId) (r : BlockRecord) :
    Except GraphFault (Table BlockId Block × BlockId) := do
  let following ← r.id.nextCounter
  if done.1.contains r.id then throw (.repeatedBlock r.id)
  let values ← restoreValues r.id r.kind r.values
  return (done.1.insert r.id { kind := r.kind, values }, max done.2 following)

/-- Adds the link of a record to those restored before, and keeps the counter above it. -/
def restoreLink (blocks : Table BlockId Block) (done : Table LinkId Link × LinkId)
    (r : LinkRecord) : Except GraphFault (Table LinkId Link × LinkId) := do
  let following ← r.id.nextCounter
  if done.1.contains r.id then throw (.repeatedLink r.id)
  if !blocks.contains r.link.source then throw (.noBlock r.link.source)
  if !blocks.contains r.link.target then throw (.noBlock r.link.target)
  return (done.1.insert r.id r.link, max done.2 following)

/-- The graph of a snapshot, with its child counts counted anew. The records have to fit together,
    but the rules for links, which only matter when the graph is compiled, may be broken. -/
def restore (s : Snapshot) : Except GraphFault Graph := do
  let blockCounter ← s.nextBlock.asCounter
  let (blocks, nextBlock) ← s.blocks.foldlM restoreBlock (∅, blockCounter)
  let linkCounter ← s.nextLink.asCounter
  let (links, nextLink) ← s.links.foldlM (restoreLink blocks) (∅, linkCounter)
  return Graph.recount { blocks, links, nextBlock, nextLink }

/-- Equality in which numbers are compared as numbers, so that NaN differs from itself. -/
def agrees (s t : Snapshot) : Bool :=
  s.nextBlock == t.nextBlock && s.nextLink == t.nextLink && s.links == t.links
    && s.blocks.length == t.blocks.length
    && (s.blocks.zip t.blocks).all fun (r, q) =>
      r.id == q.id && r.kind == q.kind && r.values.length == q.values.length
        && (r.values.zip q.values).all fun (x, y) => x.1 == y.1 && x.2.agrees y.2

end Snapshot

end CommandBlocks
