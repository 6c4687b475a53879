import CommandBlocks.Proofs.Canvas.Import
import CommandBlocks.Proofs.Graph.Rules
import Mathlib.Data.List.Permutation

namespace CommandBlocks.Canvas

variable {imported next last : Imported} {blocks links : Nat}

/-- While there are no edges, the graph keeps the rules. -/
theorem Built.ruled_of_no_links (hbuilt : Built imported blocks 0) : imported.graph.Ruled :=
  Graph.ruled_of_links_eq_empty hbuilt.links_eq_empty

/-- An edge is drawn under the rules exactly if they hold once it is drawn. -/
theorem Built.importEdge_ruled_iff {edge : Edge × Nat} (hbuilt : Built imported blocks links) :
    Canvas.importEdge .ruled imported edge = .ok next ∧ imported.graph.Ruled ↔
      Canvas.importEdge .unruled imported edge = .ok next ∧ next.graph.Ruled := by
  have hdraw : ∀ link, edge.1.toLink imported (edge.1.label edge.2) = .ok link →
      ((imported.graph.drawLink link).2.Ruled ↔
        imported.graph.Ruled ∧ imported.graph.Fits link) := by
    intro link hlink
    have hends := toLink_eq_ok_iff.1 hlink
    exact Graph.ruled_drawLink_iff hbuilt.sound.toWellFormed hbuilt.sound.get?_nextLink
      (hbuilt.named _ (contains_of_blockFor? hends.source))
      (hbuilt.named _ (contains_of_blockFor? hends.target))
  rw [importEdge_eq_ok_iff, importEdge_eq_ok_iff]
  constructor
  · rintro ⟨⟨link, hlink, hfits, rfl⟩, hruled⟩
    exact ⟨⟨link, hlink, nofun, rfl⟩, (hdraw link hlink).2 ⟨hruled, hfits rfl⟩⟩
  · rintro ⟨⟨link, hlink, -, rfl⟩, hruled⟩
    obtain ⟨hbefore, hfits⟩ := (hdraw link hlink).1 hruled
    exact ⟨⟨link, hlink, fun _ => hfits, rfl⟩, hbefore⟩

/-- Edges can be drawn under the rules exactly if they can be drawn without them and the graph keeps
    the rules in the end. -/
theorem Built.importEdges_ruled_iff {edges : List (Edge × Nat)}
    (hbuilt : Built imported blocks links) (hroom : links + edges.length < 2 ^ 64) :
    edges.foldlM (Canvas.importEdge .ruled) imported = .ok last ∧ imported.graph.Ruled ↔
      edges.foldlM (Canvas.importEdge .unruled) imported = .ok last ∧ last.graph.Ruled := by
  induction edges generalizing imported links with
  | nil =>
    constructor
    · rintro ⟨hlast, hruled⟩
      cases hlast
      exact ⟨rfl, hruled⟩
    · rintro ⟨hlast, hruled⟩
      cases hlast
      exact ⟨rfl, hruled⟩
  | cons edge edges ih =>
    rw [List.length_cons] at hroom
    rw [List.foldlM_cons, List.foldlM_cons, bind_eq_ok_iff, bind_eq_ok_iff]
    have hrest : ∀ {policy : EdgePolicy} {next : Imported},
        Canvas.importEdge policy imported edge = .ok next →
        (edges.foldlM (Canvas.importEdge .ruled) next = .ok last ∧ next.graph.Ruled ↔
          edges.foldlM (Canvas.importEdge .unruled) next = .ok last ∧ last.graph.Ruled) :=
      fun hnext => ih (hbuilt.importEdge (by omega) hnext) (by omega)
    constructor
    · rintro ⟨⟨next, hnext, hlast⟩, hruled⟩
      obtain ⟨hunruled, hkept⟩ := hbuilt.importEdge_ruled_iff.1 ⟨hnext, hruled⟩
      obtain ⟨hlast, hruled⟩ := (hrest hnext).1 ⟨hlast, hkept⟩
      exact ⟨⟨next, hunruled, hlast⟩, hruled⟩
    · rintro ⟨⟨next, hnext, hlast⟩, hruled⟩
      obtain ⟨hlast, hkept⟩ := (hrest hnext).2 ⟨hlast, hruled⟩
      obtain ⟨hnext, hruled⟩ := hbuilt.importEdge_ruled_iff.2 ⟨hnext, hkept⟩
      exact ⟨⟨next, hnext, hlast⟩, hruled⟩

/-- A document is imported under the rules exactly if its graph, drawn as it is, keeps them. -/
theorem toGraph_ruled_eq_ok_iff {canvas : Canvas} (hnodes : canvas.nodes.length < 2 ^ 64)
    (hedges : canvas.edges.length < 2 ^ 64) :
    canvas.toGraph .ruled = .ok imported ↔
      canvas.toGraph .unruled = .ok imported ∧ imported.graph.Ruled := by
  have hroom : 0 + canvas.edges.zipIdx.length < 2 ^ 64 := by
    rw [List.length_zipIdx]
    omega
  rw [toGraph_eq_ok_iff, toGraph_eq_ok_iff]
  constructor
  · rintro ⟨bare, hbare, hlast⟩
    have hbuilt := built_of_importNodes hnodes hbare
    obtain ⟨hlast, hruled⟩ :=
      (hbuilt.importEdges_ruled_iff hroom).1 ⟨hlast, hbuilt.ruled_of_no_links⟩
    exact ⟨⟨bare, hbare, hlast⟩, hruled⟩
  · rintro ⟨⟨bare, hbare, hlast⟩, hruled⟩
    have hbuilt := built_of_importNodes hnodes hbare
    exact ⟨bare, hbare, ((hbuilt.importEdges_ruled_iff hroom).2 ⟨hlast, hruled⟩).1⟩

/-- The policy for edges does not matter to what is compiled. A document that is imported under the
    rules is imported just so as it is, and one that is imported as it is, and passes the checks
    made before compiling, is imported under the rules too. -/
theorem compile_ruled_iff_unruled {canvas : Canvas} (hnodes : canvas.nodes.length < 2 ^ 64)
    (hedges : canvas.edges.length < 2 ^ 64) :
    (∀ imported, canvas.toGraph .ruled = .ok imported → canvas.toGraph .unruled = .ok imported) ∧
    (∀ imported, canvas.toGraph .unruled = .ok imported → imported.graph.shapeFault? = none →
      canvas.toGraph .ruled = .ok imported) ∧
    ∀ options program,
      (∃ imported, canvas.toGraph .unruled = .ok imported ∧
        imported.graph.compile options = .ok program) ↔
      ∃ imported, canvas.toGraph .ruled = .ok imported ∧
        imported.graph.compile options = .ok program := by
  have hiff : ∀ imported, canvas.toGraph .ruled = .ok imported ↔
      canvas.toGraph .unruled = .ok imported ∧ imported.graph.Ruled :=
    fun _ => toGraph_ruled_eq_ok_iff hnodes hedges
  have hback : ∀ imported, canvas.toGraph .unruled = .ok imported →
      imported.graph.shapeFault? = none → canvas.toGraph .ruled = .ok imported := by
    intro imported hok hshape
    have hwell := (built_of_toGraph hnodes hedges hok).sound.toWellFormed
    exact (hiff imported).2 ⟨hok, (hwell.shapeFault?_eq_none_iff.1 hshape).ruled⟩
  refine ⟨fun imported hok => ((hiff imported).1 hok).1, hback, fun options program => ?_⟩
  constructor
  · rintro ⟨imported, hok, hcompile⟩
    exact ⟨imported, hback imported hok (Graph.shapeFault?_eq_none_of_compile hcompile), hcompile⟩
  · rintro ⟨imported, hok, hcompile⟩
    exact ⟨imported, ((hiff imported).1 hok).1, hcompile⟩

/-- A document in which a block that is repeated is followed by another. -/
def repeatedCanvas : Canvas where
  nodes := [⟨"shot", "capture-image", ∅⟩, ⟨"loop", "repeat-n", .ofList [("count", .string "3")]⟩,
    ⟨"rest", "wait-sec", ∅⟩]
  edges := [⟨"", "rest", "out", "shot", "in"⟩, ⟨"", "loop", "child", "rest", "in"⟩]

def repeatedImport : Imported where
  graph := {
    blocks := .ofList [(⟨0⟩, { kind := .captureImage }),
      (⟨1⟩, ⟨.repeatTimes, .ofList [(.count, .text "3")], 1⟩), (⟨2⟩, { kind := .waitSeconds })],
    links := .ofList [(⟨0⟩, ⟨⟨2⟩, .next, ⟨0⟩⟩), (⟨1⟩, ⟨⟨1⟩, .child, ⟨2⟩⟩)],
    nextBlock := ⟨3⟩,
    nextLink := ⟨2⟩ }
  nodeNames := .ofList [(⟨0⟩, "shot"), (⟨1⟩, "loop"), (⟨2⟩, "rest")]

theorem toGraph_repeatedCanvas :
    repeatedCanvas.nodes.length < 2 ^ 64 ∧ repeatedCanvas.edges.length < 2 ^ 64 ∧
      repeatedCanvas.toGraph .unruled = .ok repeatedImport ∧
      repeatedImport.graph.shapeFault? = none ∧
      repeatedCanvas.toGraph .ruled = .ok repeatedImport := by
  have hnodes : repeatedCanvas.nodes.length < 2 ^ 64 := by decide
  have hedges : repeatedCanvas.edges.length < 2 ^ 64 := by decide
  have himport : repeatedCanvas.toGraph .unruled = .ok repeatedImport := by rfl
  have hshape : repeatedImport.graph.shapeFault? = none := by cbv
  exact ⟨hnodes, hedges, himport, hshape,
    (compile_ruled_iff_unruled hnodes hedges).2.1 repeatedImport himport hshape⟩

end CommandBlocks.Canvas
