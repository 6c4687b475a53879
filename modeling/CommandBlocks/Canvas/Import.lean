import CommandBlocks.Canvas
import CommandBlocks.Compilation
import CommandBlocks.Graph.Connecting

namespace CommandBlocks

/-- How the edges of a document are drawn. -/
inductive EdgePolicy where
  /-- Under the rules for links, the first refusal ending the import. -/
  | ruled
  /-- As they are, whatever shape the graph gets. -/
  | unruled
  deriving DecidableEq, Repr

/-- Why a document cannot be imported. Nodes are named by their identifiers in the document, and
    edges by their labels. -/
inductive ImportFault where
  | unreadable (fault : Json.Fault)
  | unknownKind (node : String) (fault : UnknownKind)
  | repeatedNode (node : String)
  | unknownNode (edge node : String)
  | unsupportedHandle (edge handle : String)
  | unsupportedValue (node parameter : String)
  | refused (edge : String) (refusal : Refusal)
  | graph (fault : GraphFault)
  deriving Repr

def ImportFault.message : ImportFault → String
  | unreadable fault => s!"Failed to parse canvas JSON: {fault.message}"
  | unknownKind node fault => s!"Canvas node '{node}' has an invalid block type: {fault.message}"
  | repeatedNode node => s!"Canvas node id '{node}' appears more than once"
  | unknownNode edge node => s!"Canvas edge '{edge}' references unknown node '{node}'"
  | unsupportedHandle edge handle => s!"Canvas edge '{edge}' uses unsupported handle '{handle}'"
  | unsupportedValue node parameter =>
    s!"Canvas node '{node}' has an unsupported value for '{parameter}'"
  | refused edge refusal => s!"Canvas edge '{edge}' was rejected: {refusal.message}"
  | graph fault => fault.message

/-- An imported graph, with the document's identifiers of its blocks. -/
structure Imported where
  graph : Graph := ∅
  nodeNames : Table BlockId String := ∅
  deriving DecidableEq

namespace Imported

/-- The document's identifier of a block. -/
def nodeName? (imported : Imported) (id : BlockId) : Option String := imported.nodeNames.get? id

/-- The block of a document's identifier. -/
def blockFor? (imported : Imported) (node : String) : Option BlockId :=
  (imported.nodeNames.entries.find? (·.2 == node)).map (·.1)

/-- The message of a fault, with the document's identifier of the block at fault. -/
def explain (imported : Imported) (fault : CompileFault) : String :=
  match imported.nodeName? fault.block with
  | some node => s!"{fault.message} (canvas node '{node}')"
  | none => fault.message

end Imported

namespace Canvas

/-- Enters one form entry of a node into its block. An entry that is left blank is passed over, even
    for a parameter that its kind does not declare. -/
def importEntry (node : String) (id : BlockId) (g : Graph) (entry : String × Json) :
    Except ImportFault Graph :=
  match Entry.ofJson entry.2 with
  | .unsupported => .error (.unsupportedValue node entry.1)
  | .blank => .ok g
  | .filled value => (g.setValue id entry.1 value).mapError .graph

/-- Adds the block of a node, with the entries of its form in the order of their names. -/
def importNode (imported : Imported) (node : Node) : Except ImportFault Imported := do
  if (imported.blockFor? node.id).isSome then throw (.repeatedNode node.id)
  let kind ← (Kind.ofName node.type).mapError (.unknownKind node.id)
  let (id, g) := imported.graph.addBlock kind
  let g ← node.values.entries.foldlM (importEntry node.id id) g
  return ⟨g, imported.nodeNames.insert id node.id⟩

/-- How messages name an edge: by its identifier, or else by its position in the document. -/
def Edge.label (edge : Edge) (position : Nat) : String :=
  if edge.id.isEmpty then s!"#{position}" else edge.id

/-- The link that an edge stands for between the blocks of its ends. -/
def Edge.toLink (edge : Edge) (imported : Imported) (label : String) :
    Except ImportFault Link := do
  let some source := imported.blockFor? edge.source | throw (.unknownNode label edge.source)
  let some handle := Handle.ofName? edge.sourceHandle
    | throw (.unsupportedHandle label edge.sourceHandle)
  let some target := imported.blockFor? edge.target | throw (.unknownNode label edge.target)
  if edge.targetHandle ≠ slotName then throw (.unsupportedHandle label edge.targetHandle)
  return ⟨source, handle, target⟩

/-- Draws the link of the edge at a position. -/
def importEdge (policy : EdgePolicy) (imported : Imported) (edge : Edge × Nat) :
    Except ImportFault Imported := do
  let label := edge.1.label edge.2
  let link ← edge.1.toLink imported label
  match policy with
  | .ruled => do
    let (_, g) ← (imported.graph.addLink link).mapError (.refused label)
    return { imported with graph := g }
  | .unruled => return { imported with graph := (imported.graph.drawLink link).2 }

/-- The graph of a document: its nodes first, and then its edges. -/
def toGraph (canvas : Canvas) (policy : EdgePolicy) : Except ImportFault Imported := do
  let imported ← canvas.nodes.foldlM importNode {}
  canvas.edges.zipIdx.foldlM (importEdge policy) imported

/-- The graph of the document of a JSON text. -/
def importText (text : String) (policy : EdgePolicy) : Except ImportFault Imported := do
  (← (ofText text).mapError .unreadable).toGraph policy

end Canvas

end CommandBlocks
