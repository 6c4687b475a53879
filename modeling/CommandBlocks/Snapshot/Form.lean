import CommandBlocks.Json.Records
import CommandBlocks.Snapshot

namespace CommandBlocks

open Json (Reader RecordField readList readRecord)

/-- The name of a handle in a snapshot. -/
def Handle.snapshotName : Handle → String
  | next => "Sequential"
  | child => "Hierarchical"

/-- A value under the name of its form. Every number is a floating-point number here. -/
def Value.toSnapshotJson : Value → Json
  | number x => .object [("Number", .number (.binary x))]
  | text s => .object [("Text", .string s)]
  | boolean b => .object [("Bool", .boolean b)]

private def numberJson (n : UInt64) : Json := .number (.integer n.toNat)

def BlockRecord.toJson (r : BlockRecord) : Json :=
  .object [("id", numberJson r.id.number), ("kind", .string r.kind.name),
    ("values", .array (r.values.map fun (name, value) =>
      .array [.string name, value.toSnapshotJson]))]

def LinkRecord.toJson (r : LinkRecord) : Json :=
  .object [("id", numberJson r.id.number), ("source", numberJson r.link.source.number),
    ("source_handle", .string r.link.handle.snapshotName),
    ("target", numberJson r.link.target.number)]

/-- A snapshot as JSON. -/
def Snapshot.toJson (s : Snapshot) : Json :=
  .object [("nodes", .array (s.blocks.map BlockRecord.toJson)),
    ("edges", .array (s.links.map LinkRecord.toJson)),
    ("next_node_id", numberJson s.nextBlock.number),
    ("next_edge_id", numberJson s.nextLink.number)]

namespace Snapshot

/-- The fields of a block's record that are read so far. -/
structure BlockDraft where
  id : Option BlockId := none
  kind : Option Kind := none
  values : Option (List (String × Value)) := none

/-- The fields of a link's record that are read so far. -/
structure LinkDraft where
  id : Option LinkId := none
  source : Option BlockId := none
  handle : Option Handle := none
  target : Option BlockId := none

/-- The fields of a snapshot that are read so far. -/
structure Draft where
  blocks : Option (List BlockRecord) := none
  links : Option (List LinkRecord) := none
  nextBlock : Option BlockId := none
  nextLink : Option LinkId := none

def readId {named : Named} : Reader (Id named) := fun cs => do
  let (number, cs) ← Json.readWord cs
  return (⟨number⟩, cs)

def readKind : Reader Kind := Json.readChoice (Kind.all.map fun kind => (kind.name, .bare kind))

def readHandle : Reader Handle :=
  Json.readChoice (Handle.all.map fun handle => (handle.snapshotName, .bare handle))

/-- Reads a value under the name of its form. -/
def readValue : Reader Value :=
  let holding {α : Type} (read : Reader α) (value : α → Value) : Json.Variant Value :=
    .holding fun cs => do
      let (a, cs) ← read cs
      return (value a, cs)
  Json.readChoice [("Number", holding Json.readBinary64 .number),
    ("Text", holding Json.readText .text), ("Bool", holding Json.readBoolean .boolean)]

def readBlock : Reader BlockRecord := fun cs => do
  let (draft, cs) ← readRecord "NodeRecord"
    [.required "id" [] BlockDraft.id (fun d a => { d with id := some a }) readId,
      .required "kind" [] BlockDraft.kind (fun d a => { d with kind := some a }) readKind,
      .required "values" [] BlockDraft.values (fun d a => { d with values := some a })
        (readList (Json.readPair Json.readText readValue))]
    {} cs
  return (⟨draft.id.getD ⟨0⟩, draft.kind.getD default, draft.values.getD []⟩, cs)

def readLink : Reader LinkRecord := fun cs => do
  let (draft, cs) ← readRecord "EdgeRecord"
    [.required "id" [] LinkDraft.id (fun d a => { d with id := some a }) readId,
      .required "source" [] LinkDraft.source (fun d a => { d with source := some a }) readId,
      .required "source_handle" [] LinkDraft.handle (fun d a => { d with handle := some a })
        readHandle,
      .required "target" [] LinkDraft.target (fun d a => { d with target := some a }) readId]
    {} cs
  return (⟨draft.id.getD ⟨0⟩, draft.source.getD ⟨0⟩, draft.handle.getD .next,
    draft.target.getD ⟨0⟩⟩, cs)

def readSnapshot : Reader Snapshot := fun cs => do
  let (draft, cs) ← readRecord "GraphSnapshot"
    [.required "nodes" [] Draft.blocks (fun d a => { d with blocks := some a })
        (readList readBlock),
      .required "edges" [] Draft.links (fun d a => { d with links := some a }) (readList readLink),
      .required "next_node_id" [] Draft.nextBlock (fun d a => { d with nextBlock := some a })
        readId,
      .required "next_edge_id" [] Draft.nextLink (fun d a => { d with nextLink := some a }) readId]
    {} cs
  return (⟨draft.blocks.getD [], draft.links.getD [], draft.nextBlock.getD ⟨0⟩,
    draft.nextLink.getD ⟨0⟩⟩, cs)

/-- The snapshot of a JSON text. -/
def ofText (text : String) : Except Json.Fault Snapshot := Json.readAll readSnapshot text

end Snapshot

end CommandBlocks
