import CommandBlocks.Json.Records

namespace CommandBlocks

namespace Canvas

/-- A block on the canvas, its kind by name and the entries of its form by parameter names. -/
structure Node where
  id : String
  type : String
  values : Table String Json

/-- A connection on the canvas, its ends and handles by name. -/
structure Edge where
  id : String
  source : String
  sourceHandle : String
  target : String
  targetHandle : String
  deriving DecidableEq, Repr

end Canvas

/-- What the authoring tool exports: the blocks in the order of their creation, and the connections
    between them. -/
structure Canvas where
  nodes : List Canvas.Node
  edges : List Canvas.Edge

namespace Canvas

open Json (Reader RecordField readText readList readRecord)

/-- The fields of a node that are read so far. -/
structure NodeDraft where
  id : Option String := none
  type : Option String := none
  values : Option (Table String Json) := none

/-- The fields of an edge that are read so far. -/
structure EdgeDraft where
  id : Option String := none
  source : Option String := none
  sourceHandle : Option String := none
  target : Option String := none
  targetHandle : Option String := none

/-- The fields of a document that are read so far. -/
structure Draft where
  nodes : Option (List Node) := none
  edges : Option (List Edge) := none

/-- Reads the entry of a form. Four arrays and objects are open around the object of the entries. -/
def readEntry : Reader Json := Json.readValue (Json.maxNesting - 5)

/-- Reads the data of a node, of which only the entries of its form matter. -/
def readData : Reader (Table String Json) := fun cs => do
  let values : RecordField (Option (Table String Json)) :=
    .optional "values" [] id (fun _ table => some table) (Json.readTable readEntry)
  let (table, cs) ← readRecord "CanvasNodeData" [values] none cs
  return (table.getD ∅, cs)

def readNode : Reader Node := fun cs => do
  let (draft, cs) ← readRecord "CanvasNode"
    [.required "id" [] NodeDraft.id (fun d a => { d with id := some a }) readText,
      .required "type" ["blockType", "kind"] NodeDraft.type
        (fun d a => { d with type := some a }) readText,
      .optional "data" [] NodeDraft.values (fun d a => { d with values := some a }) readData]
    {} cs
  return (⟨draft.id.getD "", draft.type.getD "", draft.values.getD ∅⟩, cs)

/-- Reads an edge. One without a handle at its target ends at the only slot there is. -/
def readEdge : Reader Edge := fun cs => do
  let (draft, cs) ← readRecord "CanvasEdge"
    [.optional "id" [] EdgeDraft.id (fun d a => { d with id := some a }) readText,
      .required "source" [] EdgeDraft.source (fun d a => { d with source := some a }) readText,
      .required "source_handle" ["sourceHandle"] EdgeDraft.sourceHandle
        (fun d a => { d with sourceHandle := some a }) readText,
      .required "target" [] EdgeDraft.target (fun d a => { d with target := some a }) readText,
      .optional "target_handle" ["targetHandle"] EdgeDraft.targetHandle
        (fun d a => { d with targetHandle := some a }) readText]
    {} cs
  return (⟨draft.id.getD "", draft.source.getD "", draft.sourceHandle.getD "",
    draft.target.getD "", draft.targetHandle.getD "in"⟩, cs)

def readDocument : Reader Canvas := fun cs => do
  let (draft, cs) ← readRecord "CanvasDocument"
    [.required "nodes" [] Draft.nodes (fun d a => { d with nodes := some a }) (readList readNode),
      .optional "edges" [] Draft.edges (fun d a => { d with edges := some a }) (readList readEdge)]
    {} cs
  return (⟨draft.nodes.getD [], draft.edges.getD []⟩, cs)

/-- The document of a JSON text. -/
def ofText (text : String) : Except Json.Fault Canvas := Json.readAll readDocument text

end Canvas

end CommandBlocks
