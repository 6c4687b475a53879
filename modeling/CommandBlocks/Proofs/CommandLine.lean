import CommandBlocks.CommandLine
import CommandBlocks.Proofs.Canvas.Texts
import CommandBlocks.Proofs.Files

namespace CommandBlocks.Command

variable {σ : Type} {files : Files (StateM σ)} {canvasPath snapshotPath : String}
  {policy : EdgePolicy} {options : Options} {asListing : Bool} {s s' s'' : σ}
  {content : List UInt8} {text : String} {canvas : Canvas} {imported : Imported}

/-- Compiling a canvas file writes the snapshot and then compiles the imported graph, with the names
    of the document's nodes in its messages. -/
theorem run_compile (hread : (files.read canvasPath).run s = (.ok content, s'))
    (htext : Text.ofUtf8 content = .ok text)
    (himport : Canvas.importText text policy = .ok imported)
    (hwrite : (files.write snapshotPath imported.graph.snapshot.toBytes).run s' = (.ok (), s'')) :
    ((compile canvasPath (some snapshotPath) policy options asListing).run files).run s =
      (compileGraph imported.graph options asListing imported.explain, s'') := by
  rw [run, compileCanvas, run_bind_of_run (Files.run_readText hread htext)]
  simp only [himport]
  rw [run_bind_of_run (Files.run_saveSnapshot hwrite)]
  rfl

/-- Inspecting a snapshot compiles the graph that is restored from it, with no names of nodes in its
    messages. -/
theorem run_inspect {g : Graph} (hread : (files.read snapshotPath).run s = (.ok content, s'))
    (hload : Snapshot.ofBytes content = .ok g.snapshot) (hrestore : g.snapshot.restore = .ok g) :
    ((inspect snapshotPath options asListing).run files).run s =
      (compileGraph g options asListing CompileFault.message, s') := by
  rw [run, compileSnapshot, run_bind_of_run (Files.run_loadSnapshot hread hload)]
  simp only [hrestore]
  rfl

/-- The words for a fault matter neither to the status nor to the output. -/
theorem status_compileGraph (g : Graph) (explain explain' : CompileFault → String) :
    Outcome.status (compileGraph g options asListing explain) =
        Outcome.status (compileGraph g options asListing explain') ∧
      Outcome.output (compileGraph g options asListing explain) =
        Outcome.output (compileGraph g options asListing explain') := by
  unfold compileGraph
  cases g.compile options with
  | error fault => exact ⟨rfl, rfl⟩
  | ok program => exact ⟨rfl, rfl⟩

/-- A loop around a photo, without the number of times. -/
def loopText : String :=
  "\x7b\"nodes\": [\x7b\"id\": \"loop\", \"type\": \"repeat-n\"\x7d, " ++
    "\x7b\"id\": \"photo\", \"type\": \"capture-image\"\x7d], " ++
    "\"edges\": [\x7b\"source\": \"loop\", \"sourceHandle\": \"child\", " ++
      "\"target\": \"photo\"\x7d]\x7d"

def loopCanvas : Canvas where
  nodes := [⟨"loop", "repeat-n", ∅⟩, ⟨"photo", "capture-image", ∅⟩]
  edges := [⟨"", "loop", "child", "photo", "in"⟩]

def loopImport : Imported where
  graph := {
    blocks := .ofList [(⟨0⟩, { kind := .repeatTimes, childCount := 1 }),
      (⟨1⟩, { kind := .captureImage })],
    links := .ofList [(⟨0⟩, ⟨⟨0⟩, .child, ⟨1⟩⟩)],
    nextBlock := ⟨2⟩,
    nextLink := ⟨1⟩ }
  nodeNames := .ofList [(⟨0⟩, "loop"), (⟨1⟩, "photo")]

def loopStore : FileStore := .ofList [("loop.json", Text.toUtf8 loopText)]

set_option maxRecDepth 5000 in
theorem ofText_loopText : Canvas.ofText loopText = .ok loopCanvas := by
  with_unfolding_all rfl

end CommandBlocks.Command
