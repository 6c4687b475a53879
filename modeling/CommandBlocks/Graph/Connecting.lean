import CommandBlocks.Graph.Paths

namespace CommandBlocks

/-- Why a proposed link is not drawn. -/
inductive Refusal where
  | unknownBlock (id : BlockId)
  | selfLink (id : BlockId)
  | occupied (target : BlockId) (earlier : LinkId)
  | closed (source : BlockId) (kind : Kind)
  | full (source : BlockId) (limit : Nat)
  | cycle (source target : BlockId)
  deriving DecidableEq, Repr

def Refusal.message : Refusal → String
  | unknownBlock id => s!"Node {id.blockText} referenced by the connection does not exist"
  | selfLink id => s!"Node {id.blockText} cannot be connected to itself"
  | occupied target link =>
    s!"Input slot of node {target.blockText} is already occupied by edge {link.linkText}"
  | closed source kind => s!"Block '{kind.name}' of node {source.blockText} cannot have children"
  | full source limit =>
    s!"Node {source.blockText} already holds the maximum of {limit} children"
  | cycle source target =>
    s!"Connecting node {source.blockText} to node {target.blockText} would create a cycle"

namespace Graph

/-- Refuses a link whose source, or else whose target, is no block. -/
def unknownEnd? (g : Graph) (link : Link) : Option Refusal :=
  ([link.source, link.target].find? (!g.blocks.contains ·)).map .unknownBlock

/-- Refuses a link from a block to itself. -/
def sameEnds? (link : Link) : Option Refusal :=
  if link.source = link.target then some (.selfLink link.source) else none

/-- Refuses a link to a block at which a link ends already, and names the oldest such link. -/
def occupied? (g : Graph) (link : Link) : Option Refusal :=
  (g.incoming link.target).head?.map fun (id, _) => .occupied link.target id

/-- Refuses a link by the child handle of a block that has no room for another child. -/
def noRoom? (g : Graph) (link : Link) : Option Refusal :=
  match link.handle, g.blocks.get? link.source with
  | .child, some block =>
    match block.kind.capacity with
    | .closed => some (.closed link.source block.kind)
    | .atMost limit =>
      if limit ≤ block.childCount then some (.full link.source limit) else none
    | .unbounded => none
  | _, _ => none

/-- Refuses a link to a block from which its source can be reached. -/
def closedCycle? (g : Graph) (link : Link) : Option Refusal :=
  if g.hasPath link.target link.source then some (.cycle link.source link.target) else none

/-- The first reason to refuse a proposed link, if there is one. -/
def refusal? (g : Graph) (link : Link) : Option Refusal :=
  g.unknownEnd? link <|> sameEnds? link <|> g.occupied? link <|> g.noRoom? link
    <|> g.closedCycle? link

/-- Draws a proposed link, unless the rules refuse it. -/
def addLink (g : Graph) (link : Link) : Except Refusal (LinkId × Graph) :=
  match g.refusal? link with
  | some refusal => .error refusal
  | none => .ok (g.drawLink link)

end Graph

end CommandBlocks
