import CommandBlocks.Id
import CommandBlocks.Palette
import CommandBlocks.Table
import CommandBlocks.Value

namespace CommandBlocks

/-- Where a link leaves its source. -/
inductive Handle where
  /-- The target runs after the source. -/
  | next
  /-- The target runs nested inside the source. -/
  | child
  deriving DecidableEq, Repr

/-- The name of a handle in documents. -/
def Handle.name : Handle → String
  | next => "out"
  | child => "child"

def Handle.all : List Handle := [next, child]

/-- The handle of a name. -/
def Handle.ofName? (name : String) : Option Handle := all.find? (·.name == name)

/-- The name of the slot at which every link ends. -/
def slotName : String := "in"

/-- A block of a program, with the values entered for it. -/
structure Block where
  kind : Kind
  values : Table Parameter Value := ∅
  /-- The number of links that leave the block's child handle. -/
  childCount : Nat := 0
  deriving DecidableEq

/-- The value entered for the parameter of a name. -/
def Block.valueNamed? (block : Block) (name : String) : Option Value :=
  (Parameter.ofName? name).bind block.values.get?

/-- A link from one block to another, drawn or only proposed. -/
structure Link where
  source : BlockId
  handle : Handle
  target : BlockId
  deriving DecidableEq, Repr

/-- Blocks and links under their identifiers, and the identifiers to hand out next. -/
structure Graph where
  blocks : Table BlockId Block := ∅
  links : Table LinkId Link := ∅
  nextBlock : BlockId := ⟨0⟩
  nextLink : LinkId := ⟨0⟩
  deriving DecidableEq

/-- Why a graph could not be changed or rebuilt. -/
inductive GraphFault where
  | noBlock (id : BlockId)
  | noLink (id : LinkId)
  | unknownParameter (id : BlockId) (kind : Kind) (name : String)
  | repeatedBlock (id : BlockId)
  | repeatedLink (id : LinkId)
  | idOutOfRange (number : UInt64)
  deriving DecidableEq, Repr

def GraphFault.message : GraphFault → String
  | noBlock id => s!"Node {id.blockText} does not exist in the program graph"
  | noLink id => s!"Edge {id.linkText} does not exist in the program graph"
  | unknownParameter id kind name =>
    s!"Block kind '{kind.name}' of node {id.blockText} has no parameter named '{name}'"
  | repeatedBlock id => s!"Node id {id.blockText} appears more than once in the snapshot"
  | repeatedLink id => s!"Edge id {id.linkText} appears more than once in the snapshot"
  | idOutOfRange number => s!"Id {number} is outside the range a restored graph may use"

namespace Graph

/-- The graph without blocks. -/
def empty : Graph := {}

instance : EmptyCollection Graph := ⟨empty⟩

/-- The links that leave a block by a handle, in the order of their identifiers. -/
def outgoing (g : Graph) (source : BlockId) (handle : Handle) : List (LinkId × Link) :=
  g.links.entries.filter fun (_, link) => link.source = source ∧ link.handle = handle

/-- The links that end at a block, in the order of their identifiers. -/
def incoming (g : Graph) (target : BlockId) : List (LinkId × Link) :=
  g.links.entries.filter fun (_, link) => link.target = target

/-- The blocks at which no link ends, in the order of their identifiers. -/
def roots (g : Graph) : List BlockId :=
  g.blocks.keys.filter fun id => (g.incoming id).isEmpty

/-- The number of links that leave a block's child handle. -/
def nestedIn (links : Table LinkId Link) (id : BlockId) : Nat :=
  links.values.countP fun link => link.source = id ∧ link.handle = .child

/-- The blocks with the child counts of those that pass a test brought up to date. -/
def recountWhere (blocks : Table BlockId Block) (links : Table LinkId Link)
    (p : BlockId → Bool) : Table BlockId Block :=
  blocks.map fun id block =>
    if p id then { block with childCount := nestedIn links id } else block

/-- Brings every child count up to date. -/
def recount (g : Graph) : Graph :=
  { g with blocks := recountWhere g.blocks g.links fun _ => true }

/-- Adds a block without values. -/
def addBlock (g : Graph) (kind : Kind) : BlockId × Graph :=
  (g.nextBlock,
    { g with blocks := g.blocks.insert g.nextBlock { kind }, nextBlock := g.nextBlock.next })

/-- Removes a block and every link that leaves it or ends at it. The blocks that one of these links
    left by its child handle are counted again. -/
def removeBlock (g : Graph) (id : BlockId) : Except GraphFault (Block × Graph) :=
  match g.blocks.get? id with
  | none => .error (.noBlock id)
  | some block =>
    let touches (link : Link) : Bool := link.source = id ∨ link.target = id
    let links := g.links.filter fun _ link => !touches link
    let lostChild (parent : BlockId) : Bool := g.links.values.any fun link =>
      touches link && link.source == parent && link.handle == .child
    .ok (block,
      { g with blocks := recountWhere (g.blocks.erase id) links lostChild, links := links })

/-- Enters a value for a parameter, as it is. -/
def setValue (g : Graph) (id : BlockId) (name : String) (value : Value) :
    Except GraphFault Graph :=
  match g.blocks.get? id with
  | none => .error (.noBlock id)
  | some block =>
    match block.kind.inputNamed? name with
    | none => .error (.unknownParameter id block.kind name)
    | some input =>
      let block := { block with values := block.values.insert input.parameter value }
      .ok { g with blocks := g.blocks.insert id block }

/-- Takes the value of a parameter away, and says what it was. -/
def clearValue (g : Graph) (id : BlockId) (name : String) :
    Except GraphFault (Option Value × Graph) :=
  match g.blocks.get? id with
  | none => .error (.noBlock id)
  | some block =>
    match Parameter.ofName? name with
    | none => .ok (none, g)
    | some parameter =>
      let cleared := { block with values := block.values.erase parameter }
      .ok (block.values.get? parameter, { g with blocks := g.blocks.insert id cleared })

/-- Draws a link, whatever the rules for links say. -/
def drawLink (g : Graph) (link : Link) : LinkId × Graph :=
  let links := g.links.insert g.nextLink link
  let blocks :=
    if link.handle = .child then recountWhere g.blocks links (· == link.source) else g.blocks
  (g.nextLink, { g with blocks, links, nextLink := g.nextLink.next })

/-- Removes a link, and says which it was. -/
def removeLink (g : Graph) (id : LinkId) : Except GraphFault (Link × Graph) :=
  match g.links.get? id with
  | none => .error (.noLink id)
  | some link =>
    let links := g.links.erase id
    let blocks :=
      if link.handle = .child then recountWhere g.blocks links (· == link.source) else g.blocks
    .ok (link, { g with blocks, links })

end Graph

end CommandBlocks
