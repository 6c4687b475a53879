import CommandBlocks.Proofs.Canvas.Import
import CommandBlocks.Proofs.Graph.Faults

namespace CommandBlocks

section Numbers

variable {named : Named} {α β : Type} {r : α → β → Prop} {items : List α}
  {table : Table (Id named) β}

/-- A table holds what comes of the items of a list, each under the number of its position. -/
def Table.Numbers (table : Table (Id named) β) (r : α → β → Prop) (items : List α) : Prop :=
  ∀ id : Id named, Option.Rel r items[id.number.toNat]? (table.get? id)

theorem Table.numbers_empty : (∅ : Table (Id named) β).Numbers r [] := by
  intro id
  rw [Table.get?_empty, List.getElem?_nil]
  exact .none

/-- What is inserted under the next number belongs to the next item. -/
theorem Table.Numbers.insert (hnumbers : table.Numbers r items) {next : Id named}
    (hnext : next.number.toNat = items.length) {a : α} {b : β} (hab : r a b) :
    (table.insert next b).Numbers r (items ++ [a]) := by
  intro id
  rw [Table.get?_insert]
  by_cases hid : id = next
  · rw [hid, if_pos rfl, hnext, List.getElem?_concat_length]
    exact .some hab
  · have hnumber : id.number.toNat ≠ items.length := fun heq =>
      hid (Id.number_inj (UInt64.toNat_inj.1 (heq.trans hnext.symm)))
    have hitem : (items ++ [a])[id.number.toNat]? = items[id.number.toNat]? := by grind
    rw [if_neg hid, hitem]
    exact hnumbers id

/-- A table whose values are mapped still numbers the items, if the values still belong to them. -/
theorem Table.Numbers.map (hnumbers : table.Numbers r items) {γ : Type} {r' : α → γ → Prop}
    {f : Id named → β → γ} (hf : ∀ id a b, r a b → r' a (f id b)) :
    (table.map f).Numbers r' items := by
  intro id
  have hrel := hnumbers id
  rw [Table.get?_map]
  generalize items[id.number.toNat]? = item, table.get? id = value at hrel ⊢
  cases hrel with
  | none => exact .none
  | some hab => exact .some (hf id _ _ hab)

/-- A table that holds images of the items is known by what it holds. -/
theorem Table.Numbers.get?_eq {f : α → β} (hnumbers : table.Numbers (fun a b => f a = b) items)
    (id : Id named) : table.get? id = items[id.number.toNat]?.map f := by
  have hrel := hnumbers id
  generalize items[id.number.toNat]? = item, table.get? id = value at hrel ⊢
  cases hrel with
  | none => rfl
  | some hab => rw [Option.map_some, hab]

/-- The keys of a numbered table are the numbers below the number of the items. -/
theorem Table.Numbers.contains_iff (hnumbers : table.Numbers r items) {id : Id named} :
    table.contains id = true ↔ id.number.toNat < items.length := by
  have hsome : items[id.number.toNat]?.isSome = true ↔ id.number.toNat < items.length := by simp
  have hrel := hnumbers id
  rw [← hsome, Table.contains]
  generalize items[id.number.toNat]? = item, table.get? id = value at hrel ⊢
  cases hrel with
  | none => rfl
  | some _ => rfl

end Numbers

namespace Canvas

variable {imported next : Imported} {policy : EdgePolicy}

/-- Values are the entries of a form that are not left blank, each as it is kept, and no others. -/
structure FormValues (kept : Json → Value → Prop) (entries : List (String × Json))
    (values : Table Parameter Value) : Prop where
  entered : ∀ name json, (name, json) ∈ entries → json ≠ .null →
    ∃ parameter value, parameter.name = name ∧ values.get? parameter = some value ∧ kept json value
  nothingElse : ∀ parameter value, values.get? parameter = some value →
    ∃ json, (parameter.name, json) ∈ entries ∧ kept json value

/-- A block stands for a node: its kind is the one that the node names, and its values are those of
    the node's form. -/
structure Node.IsBlock (node : Node) (block : Block) : Prop where
  kind : block.kind.name = node.type
  values : FormValues Json.EnteredAs node.values.entries block.values

section Form

variable {kept : Json → Value → Prop} {entries : List (String × Json)}
  {values : Table Parameter Value}

theorem formValues_empty : FormValues kept [] ∅ := by
  constructor
  · intro name json hmem
    cases hmem
  · intro parameter value hget
    cases hget

theorem FormValues.blank (hvalues : FormValues kept entries values) (name : String) :
    FormValues kept (entries ++ [(name, .null)]) values := by
  constructor
  · intro other json hmem hjson
    obtain hold | hnew := List.mem_append.1 hmem
    · exact hvalues.entered other json hold hjson
    · cases List.mem_singleton.1 hnew
      exact absurd rfl hjson
  · intro parameter value hget
    obtain ⟨json, hmem, hentered⟩ := hvalues.nothingElse parameter value hget
    exact ⟨json, List.mem_append_left _ hmem, hentered⟩

/-- An entry under a new name adds the value that is kept for it. -/
theorem FormValues.enter (hvalues : FormValues kept entries values) {parameter : Parameter}
    (hfresh : parameter.name ∉ entries.map (·.1)) {json : Json} {value : Value}
    (hkept : kept json value) :
    FormValues kept (entries ++ [(parameter.name, json)]) (values.insert parameter value) := by
  constructor
  · intro name other hmem hother
    obtain hold | hnew := List.mem_append.1 hmem
    · obtain ⟨earlier, found, rfl, hget, hfound⟩ := hvalues.entered name other hold hother
      have hne : earlier ≠ parameter := by
        rintro rfl
        exact hfresh (List.mem_map.2 ⟨_, hold, rfl⟩)
      exact ⟨earlier, found, rfl, Table.get?_insert_eq_some.2 (.inr ⟨hne, hget⟩), hfound⟩
    · cases List.mem_singleton.1 hnew
      exact ⟨parameter, value, rfl, Table.get?_insert_self _ _ _, hkept⟩
  · intro other found hget
    obtain ⟨rfl, rfl⟩ | ⟨-, hold⟩ := Table.get?_insert_eq_some.1 hget
    · exact ⟨json, by simp, hkept⟩
    · obtain ⟨earlier, hmem, hfound⟩ := hvalues.nothingElse other found hold
      exact ⟨earlier, List.mem_append_left _ hmem, hfound⟩

/-- The entries of a form become the values of its block, and nothing else changes. -/
theorem exists_of_importEntries {node : String} {id : BlockId} {kind : Kind} {g h : Graph}
    (hnodup : (entries.map (·.1)).Nodup) (hget : g.blocks.get? id = some { kind })
    (hok : entries.foldlM (importEntry node id) g = .ok h) :
    ∃ block, h = { g with blocks := g.blocks.insert id block } ∧ block.kind = kind ∧
      FormValues Json.EnteredAs entries block.values := by
  refine foldlM_prefix_induction (motive := fun done h => ∃ block,
    h = { g with blocks := g.blocks.insert id block } ∧ block.kind = kind ∧
      FormValues Json.EnteredAs done block.values) ?_ ?_ hok
  · rintro done ⟨name, json⟩ rest - next hentries ⟨block, rfl, rfl, hvalues⟩ hstep
    obtain ⟨rfl, rfl⟩ | ⟨value, hentered, hset⟩ := importEntry_eq_ok_iff.1 hstep
    · exact ⟨block, rfl, rfl, hvalues.blank name⟩
    · obtain ⟨found, input, hfound, hinput, rfl⟩ := Graph.setValue_eq_ok_iff.1 hset
      obtain rfl : block = found := by simpa [Table.get?_insert_self] using hfound
      have hname := Kind.name_of_inputNamed? hinput
      have hfresh : input.parameter.name ∉ done.map (·.1) := by
        intro hmem
        rw [hentries, List.map_append, List.map_cons] at hnodup
        exact (List.nodup_append.1 hnodup).2.2 _ hmem name List.mem_cons_self hname
      refine ⟨{ block with values := block.values.insert input.parameter value }, ?_, rfl, ?_⟩
      · rw [Table.insert_insert]
      · rw [← hname]
        exact hvalues.enter hfresh hentered
  · refine ⟨{ kind }, ?_, rfl, formValues_empty⟩
    rw [Table.insert_eq_self hget]

end Form

/-- Bringing child counts up to date leaves blocks that stand for nodes. -/
theorem numbers_recountWhere {nodes : List Node} {blocks : Table BlockId Block}
    (hblocks : blocks.Numbers Node.IsBlock nodes) (links : Table LinkId Link)
    (p : BlockId → Bool) : (Graph.recountWhere blocks links p).Numbers Node.IsBlock nodes := by
  refine hblocks.map fun id node block hblock => ?_
  by_cases hp : p id = true
  · rw [if_pos hp]
    exact ⟨hblock.kind, hblock.values⟩
  · rwa [if_neg hp]

/-- The nodes of a document are the blocks so far, and no two blocks have one node. -/
structure Copies (nodes : List Node) (imported : Imported) : Prop where
  blocks : imported.graph.blocks.Numbers Node.IsBlock nodes
  names : imported.nodeNames.Numbers (fun node name => node.id = name) nodes
  apart : ∀ id other name, imported.nodeName? id = some name →
    imported.nodeName? other = some name → id = other

theorem copies_empty : Copies [] {} where
  blocks := Table.numbers_empty
  names := Table.numbers_empty
  apart id other name hid := by cases hid

/-- The block that is found for a node has the name of that node. -/
theorem nodeName?_of_blockFor? {node : String} {id : BlockId}
    (hfound : imported.blockFor? node = some id) : imported.nodeName? id = some node := by
  rw [Imported.blockFor?, Option.map_eq_some_iff] at hfound
  obtain ⟨⟨_, name⟩, hentry, rfl⟩ := hfound
  have hname := List.find?_some hentry
  obtain rfl : name = node := eq_of_beq hname
  exact Table.mem_entries_iff.1 (List.mem_of_find?_eq_some hentry)

theorem isSome_blockFor? {node : String} {id : BlockId}
    (hname : imported.nodeName? id = some node) : (imported.blockFor? node).isSome = true := by
  rw [Imported.blockFor?, Option.isSome_map, List.find?_isSome]
  exact ⟨(id, node), Table.mem_entries_iff.2 hname, beq_self_eq_true node⟩

namespace Copies

variable {nodes : List Node}

/-- As no name is given twice, the block of a node is found by its name. -/
theorem blockFor?_eq_some_iff (hcopies : Copies nodes imported) {node : String} {id : BlockId} :
    imported.blockFor? node = some id ↔ imported.nodeName? id = some node := by
  refine ⟨nodeName?_of_blockFor?, fun hname => ?_⟩
  obtain ⟨other, hother⟩ := Option.isSome_iff_exists.1 (isSome_blockFor? hname)
  rw [hother, hcopies.apart other id node (nodeName?_of_blockFor? hother) hname]

/-- Every block has the name of its node. -/
theorem exists_nodeName? (hcopies : Copies nodes imported) {id : BlockId}
    (hid : imported.graph.blocks.contains id = true) : ∃ node, imported.nodeName? id = some node :=
  Table.contains_iff.1 (hcopies.names.contains_iff.2 (hcopies.blocks.contains_iff.1 hid))

/-- Whatever keeps an imported graph from being compiled is explained with the name of a node. -/
theorem exists_explain (hcopies : Copies nodes imported) (hg : imported.graph.WellFormed)
    {options : Options} {fault : CompileFault}
    (herror : imported.graph.compile options = .error fault) :
    ∃ node, imported.nodeName? fault.block = some node ∧
      imported.explain fault = s!"{fault.message} (canvas node '{node}')" := by
  obtain ⟨node, hname⟩ := hcopies.exists_nodeName? (hg.contains_of_compile_eq_error herror)
  exact ⟨node, hname, by rw [Imported.explain, hname]⟩

/-- A node that is imported is copied as the next block. -/
theorem importNode (hcopies : Copies nodes imported) {node : Node}
    (hnext : imported.graph.nextBlock.number.toNat = nodes.length)
    (hok : importNode imported node = .ok next) : Copies (nodes ++ [node]) next := by
  obtain ⟨hfresh, kind, hkind, g, hentries, rfl⟩ := importNode_eq_ok_iff.1 hok
  obtain ⟨block, rfl, hblock, hvalues⟩ :=
    exists_of_importEntries node.values.nodup_keys (Table.get?_insert_self _ _ _) hentries
  have hnew : ∀ id, imported.nodeName? id ≠ some node.id :=
    fun id hname => hfresh (isSome_blockFor? hname)
  refine ⟨?_, hcopies.names.insert hnext rfl, ?_⟩
  · change (((imported.graph.blocks.insert _ _).insert _ block).Numbers Node.IsBlock _)
    rw [Table.insert_insert]
    refine hcopies.blocks.insert hnext ⟨?_, hvalues⟩
    rw [hblock]
    exact Kind.ofName_eq_ok_iff.1 hkind
  · intro id other name hid hother
    obtain ⟨rfl, rfl⟩ | ⟨-, hold⟩ := Table.get?_insert_eq_some.1 hid
    · obtain ⟨rfl, -⟩ | ⟨-, hold⟩ := Table.get?_insert_eq_some.1 hother
      · rfl
      · exact absurd hold (hnew other)
    · obtain ⟨rfl, rfl⟩ | ⟨-, hold'⟩ := Table.get?_insert_eq_some.1 hother
      · exact absurd hold (hnew id)
      · exact hcopies.apart id other name hold hold'

end Copies

theorem copies_of_importNodes {nodes : List Node} (hnodes : nodes.length < 2 ^ 64)
    (hok : nodes.foldlM importNode {} = .ok imported) : Copies nodes imported := by
  have hempty : Built {} 0 0 ∧ Copies [] {} := ⟨built_empty, copies_empty⟩
  refine (foldlM_prefix_induction (motive := fun done imported =>
    Built imported done.length 0 ∧ Copies done imported) ?_ hempty hok).2
  rintro done node rest imported next hdone ⟨hbuilt, hcopies⟩ hstep
  have hroom : done.length + 1 < 2 ^ 64 := by
    rw [hdone, List.length_append, List.length_cons] at hnodes
    omega
  refine ⟨?_, hcopies.importNode hbuilt.nextBlock hstep⟩
  rw [List.length_append, List.length_singleton]
  exact hbuilt.importNode hroom hstep

/-- Which links stand for which edges depends on the names of the blocks only. -/
theorem isLink_withGraph (imported : Imported) (g : Graph) :
    Edge.IsLink { imported with graph := g } = Edge.IsLink imported := by
  funext edge link
  apply propext
  constructor
  · exact fun hlink => ⟨hlink.source, hlink.handle, hlink.target, hlink.slot⟩
  · exact fun hlink => ⟨hlink.source, hlink.handle, hlink.target, hlink.slot⟩

/-- An edge that is imported is copied as the next link, and the blocks stay. -/
theorem copies_of_importEdge {nodes : List Node} {edges : List Edge} {edge : Edge × Nat}
    (hcopies : Copies nodes imported)
    (hlinks : imported.graph.links.Numbers (Edge.IsLink imported) edges)
    (hnext : imported.graph.nextLink.number.toNat = edges.length)
    (hok : importEdge policy imported edge = .ok next) :
    Copies nodes next ∧ next.graph.links.Numbers (Edge.IsLink next) (edges ++ [edge.1]) := by
  obtain ⟨link, hlink, -, rfl⟩ := importEdge_eq_ok_iff.1 hok
  rw [Graph.drawLink_eq]
  refine ⟨⟨numbers_recountWhere hcopies.blocks _ _, hcopies.names, hcopies.apart⟩, ?_⟩
  rw [isLink_withGraph]
  exact hlinks.insert hnext (toLink_eq_ok_iff.1 hlink)

/-- All nodes and edges of a document are copied, in their order. -/
theorem copies_of_toGraph {canvas : Canvas} (hnodes : canvas.nodes.length < 2 ^ 64)
    (hedges : canvas.edges.length < 2 ^ 64) (hok : canvas.toGraph policy = .ok imported) :
    Copies canvas.nodes imported ∧
      imported.graph.links.Numbers (Edge.IsLink imported) canvas.edges := by
  obtain ⟨bare, hbare, hlast⟩ := toGraph_eq_ok_iff.1 hok
  have hbuilt := built_of_importNodes hnodes hbare
  have hinit : Built bare canvas.nodes.length 0 ∧ Copies canvas.nodes bare ∧
      bare.graph.links.Numbers (Edge.IsLink bare) [] := by
    rw [hbuilt.links_eq_empty]
    exact ⟨hbuilt, copies_of_importNodes hnodes hbare, Table.numbers_empty⟩
  have hall := foldlM_prefix_induction (motive := fun done imported =>
    Built imported canvas.nodes.length done.length ∧ Copies canvas.nodes imported ∧
      imported.graph.links.Numbers (Edge.IsLink imported) (done.map (·.1))) ?_ hinit hlast
  · rw [List.zipIdx_map_fst] at hall
    exact hall.2
  · rintro done edge rest imported next hdone ⟨hbuilt, hcopies, hlinks⟩ hstep
    have hlength := congrArg List.length hdone
    rw [List.length_zipIdx, List.length_append, List.length_cons] at hlength
    have hnext : imported.graph.nextLink.number.toNat = (done.map (·.1)).length := by
      rw [List.length_map, hbuilt.nextLink]
    rw [List.length_append, List.length_singleton, List.map_append, List.map_singleton]
    exact ⟨hbuilt.importEdge (by omega) hstep, copies_of_importEdge hcopies hlinks hnext hstep⟩

/-- An imported graph holds the document. Its blocks are the nodes and its links are the edges, both
    numbered in their order; every block has the name of its node and no other identifier has a
    name; and finding the block of a name is the inverse of naming a block. The values of a block
    are the scalars of the node's form, an integer being kept as the number nearest to it. -/
theorem contents_of_toGraph {canvas : Canvas} (hnodes : canvas.nodes.length < 2 ^ 64)
    (hedges : canvas.edges.length < 2 ^ 64) (hok : canvas.toGraph policy = .ok imported) :
    imported.graph.blocks.Numbers Node.IsBlock canvas.nodes ∧
      imported.graph.links.Numbers (Edge.IsLink imported) canvas.edges ∧
      (∀ id, imported.nodeName? id = canvas.nodes[id.number.toNat]?.map (·.id)) ∧
      ∀ node id, imported.blockFor? node = some id ↔ imported.nodeName? id = some node := by
  obtain ⟨hcopies, hlinks⟩ := copies_of_toGraph hnodes hedges hok
  exact ⟨hcopies.blocks, hlinks, fun id => hcopies.names.get?_eq id,
    fun _ _ => hcopies.blockFor?_eq_some_iff⟩

/-- A document in which a photo is taken as often as an integer says that no floating-point number
    is, and that asks for a pause in a text. -/
def surveyCanvas : Canvas where
  nodes := [⟨"photo", "capture-image", .ofList [("camera", .string "nadir"),
      ("compress", .boolean true), ("exposure", .number (.binary ⟨0x3fd0000000000000⟩))]⟩,
    ⟨"survey", "repeat-n", .ofList [("count", .number (.integer 9007199254740993)),
      ("note", .null)]⟩,
    ⟨"settle", "wait-sec", .ofList [("duration", .string "12")]⟩]
  edges := [⟨"nest", "survey", "child", "photo", "in"⟩, ⟨"", "photo", "out", "settle", "in"⟩]

def surveyImport : Imported where
  graph := {
    blocks := .ofList [
      (⟨0⟩, ⟨.captureImage, .ofList [(.camera, .text "nadir"), (.compress, .boolean true),
        (.exposure, .number ⟨0x3fd0000000000000⟩)], 0⟩),
      (⟨1⟩, ⟨.repeatTimes, .ofList [(.count, .number ⟨0x4340000000000000⟩)], 1⟩),
      (⟨2⟩, ⟨.waitSeconds, .ofList [(.duration, .text "12")], 0⟩)],
    links := .ofList [(⟨0⟩, ⟨⟨1⟩, .child, ⟨0⟩⟩), (⟨1⟩, ⟨⟨0⟩, .next, ⟨2⟩⟩)],
    nextBlock := ⟨3⟩,
    nextLink := ⟨2⟩ }
  nodeNames := .ofList [(⟨0⟩, "photo"), (⟨1⟩, "survey"), (⟨2⟩, "settle")]

theorem contents_surveyImport :
    surveyCanvas.nodes.length < 2 ^ 64 ∧ surveyCanvas.edges.length < 2 ^ 64 ∧
      surveyCanvas.toGraph .ruled = .ok surveyImport ∧
      surveyImport.graph.blocks.Numbers Node.IsBlock surveyCanvas.nodes ∧
      surveyImport.nodeName? ⟨3⟩ = none ∧ surveyImport.blockFor? "survey" = some ⟨1⟩ := by
  have hnodes : surveyCanvas.nodes.length < 2 ^ 64 := by decide
  have hedges : surveyCanvas.edges.length < 2 ^ 64 := by decide
  have himport : surveyCanvas.toGraph .ruled = .ok surveyImport := by
    with_unfolding_all rfl
  obtain ⟨hblocks, -, hnames, hinverse⟩ := contents_of_toGraph hnodes hedges himport
  exact ⟨hnodes, hedges, himport, hblocks, hnames ⟨3⟩, (hinverse "survey" ⟨1⟩).2 (hnames ⟨1⟩)⟩

/-- A value is a JSON scalar itself. A number is the same rational as the integer that is written. -/
inductive Verbatim : Json → Value → Prop
  | boolean (b : Bool) : Verbatim (.boolean b) (.boolean b)
  | integer {n : Int} {x : Binary64} (finite : x.isFinite = true) (exact : x.toRat = n) :
    Verbatim (.number (.integer n)) (.number x)
  | binary (x : Binary64) : Verbatim (.number (.binary x)) (.number x)
  | string (s : String) : Verbatim (.string s) (.text s)

/-- An integer of more digits than a significand holds is not kept itself: `2 ^ 53 + 1` is kept as
    `2 ^ 53`. -/
theorem not_verbatim_surveyImport :
    surveyCanvas.nodes.length < 2 ^ 64 ∧ surveyCanvas.edges.length < 2 ^ 64 ∧
      surveyCanvas.toGraph .ruled = .ok surveyImport ∧
      ¬ surveyImport.graph.blocks.Numbers
        (fun node block => FormValues Verbatim node.values.entries block.values)
        surveyCanvas.nodes := by
  refine ⟨by decide, by decide, by with_unfolding_all rfl, fun hblocks => ?_⟩
  have hcount : surveyImport.graph.blocks.get? ⟨1⟩ =
      some ⟨.repeatTimes, .ofList [(.count, .number ⟨0x4340000000000000⟩)], 1⟩ := rfl
  have hrel := hblocks ⟨1⟩
  rw [hcount] at hrel
  cases hrel with
  | some hvalues =>
    obtain ⟨json, hentry, hverbatim⟩ := hvalues.nothingElse .count _ rfl
    obtain rfl : .number (.integer 9007199254740993) = json :=
      Option.some.inj (Table.mem_entries_iff.1 hentry)
    cases hverbatim with
    | integer _ hexact =>
      have hkept : (⟨0x4340000000000000⟩ : Binary64).toRat = 9007199254740992 := by decide +kernel
      rw [hkept] at hexact
      norm_num at hexact

/-- A document in which a loop follows the pause that is nested in it. -/
def circleCanvas : Canvas where
  nodes := [⟨"loop", "repeat-n", .ofList [("count", .string "2")]⟩,
    ⟨"pause", "wait-sec", .ofList [("duration", .string " ")]⟩]
  edges := [⟨"nest", "loop", "child", "pause", "in"⟩, ⟨"again", "pause", "out", "loop", "in"⟩]

/-- The same document without the edge that closes the circle. -/
def pauseCanvas : Canvas := { circleCanvas with edges := circleCanvas.edges.take 1 }

def pauseImport : Imported where
  graph := {
    blocks := .ofList [(⟨0⟩, ⟨.repeatTimes, .ofList [(.count, .text "2")], 1⟩),
      (⟨1⟩, ⟨.waitSeconds, .ofList [(.duration, .text " ")], 0⟩)],
    links := .ofList [(⟨0⟩, ⟨⟨0⟩, .child, ⟨1⟩⟩)],
    nextBlock := ⟨2⟩,
    nextLink := ⟨1⟩ }
  nodeNames := .ofList [(⟨0⟩, "loop"), (⟨1⟩, "pause")]

def circleImport : Imported :=
  { pauseImport with graph := (pauseImport.graph.drawLink ⟨⟨1⟩, .next, ⟨0⟩⟩).2 }

end Canvas

end CommandBlocks
