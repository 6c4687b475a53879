import CommandBlocks.Canvas.Import
import CommandBlocks.Proofs.Graph.Connecting
import CommandBlocks.Proofs.Graph.Sound
import CommandBlocks.Proofs.Results
import CommandBlocks.Proofs.Rounding

namespace CommandBlocks

/-- A value is what a JSON scalar was entered as. A text stays a text, even where a number is asked
    for, and a floating-point number stays the same number. An integer becomes the floating-point
    number nearest to it. -/
inductive Json.EnteredAs : Json → Value → Prop
  | boolean (b : Bool) : EnteredAs (.boolean b) (.boolean b)
  | integer {n : Int} {x : Binary64} (nearest : x.IsNearest n) :
    EnteredAs (.number (.integer n)) (.number x)
  | binary (x : Binary64) : EnteredAs (.number (.binary x)) (.number x)
  | string (s : String) : EnteredAs (.string s) (.text s)

/-- An entry of a form is filled by the scalars, with the values that these are entered as. -/
theorem Entry.ofJson_eq_filled_iff {json : Json} {value : Value} :
    ofJson json = .filled value ↔ json.EnteredAs value := by
  constructor
  · intro hentry
    cases json with
    | boolean b =>
      cases hentry
      exact .boolean b
    | number n =>
      cases hentry
      cases n with
      | integer n => exact .integer (Binary64.isNearest_ofInt n)
      | binary x => exact .binary x
    | string s =>
      cases hentry
      exact .string s
    | null => cases hentry
    | array items => cases hentry
    | object members => cases hentry
  · intro hentered
    cases hentered with
    | boolean b => rfl
    | integer hnearest => rw [hnearest.unique (Binary64.isNearest_ofInt _)]; rfl
    | binary x => rfl
    | string s => rfl

/-- Of all entries, `null` alone is blank. -/
theorem Entry.ofJson_eq_blank_iff {json : Json} : ofJson json = .blank ↔ json = .null := by
  cases json <;> simp [ofJson]

theorem Handle.ofName?_eq_some_iff {handle : Handle} {name : String} :
    ofName? name = some handle ↔ handle.name = name := by
  constructor
  · intro hsome
    have hfound := List.find?_some hsome
    exact eq_of_beq hfound
  · rintro rfl
    cases handle <;> rfl

theorem Handle.ofName?_eq_none_iff {name : String} :
    ofName? name = none ↔ ∀ handle : Handle, handle.name ≠ name := by
  constructor
  · intro hnone handle hname
    rw [ofName?_eq_some_iff.2 hname] at hnone
    cases hnone
  · intro hunknown
    cases hfound : ofName? name with
    | none => rfl
    | some handle => exact absurd (ofName?_eq_some_iff.1 hfound) (hunknown handle)

theorem Kind.ofName_eq_ok_iff {kind : Kind} {name : String} :
    ofName name = .ok kind ↔ kind.name = name := by
  constructor
  · intro hok
    rw [ofName] at hok
    cases hfound : ofName? name with
    | none => simp [hfound] at hok
    | some found =>
      simp only [hfound, Except.ok.injEq] at hok
      have hname := List.find?_some hfound
      rw [← hok]
      exact eq_of_beq hname
  · rintro rfl
    cases kind <;> rfl

/-- Names of no kind are refused. -/
theorem Kind.ofName_eq_error_iff {name : String} {fault : UnknownKind} :
    ofName name = .error fault ↔ (∀ kind : Kind, kind.name ≠ name) ∧ fault = ⟨name⟩ := by
  cases hname : ofName name with
  | ok found =>
    have hfound := ofName_eq_ok_iff.1 hname
    exact ⟨nofun, fun hnone => absurd hfound (hnone.1 found)⟩
  | error unknown =>
    have hnone : ∀ kind : Kind, kind.name ≠ name := by
      intro kind hkind
      rw [ofName_eq_ok_iff.2 hkind] at hname
      cases hname
    rw [ofName] at hname
    split at hname
    · cases hname
    · cases hname
      simp [hnone, eq_comm]

namespace Canvas

variable {imported next : Imported} {policy : EdgePolicy}

/-- An entry is imported if it is blank, or if it is a scalar that can be set as a value. -/
theorem importEntry_eq_ok_iff {node name : String} {id : BlockId} {g h : Graph} {json : Json} :
    importEntry node id g (name, json) = .ok h ↔
      json = .null ∧ g = h ∨ ∃ value, json.EnteredAs value ∧ g.setValue id name value = .ok h := by
  simp only [importEntry, ← Entry.ofJson_eq_blank_iff, ← Entry.ofJson_eq_filled_iff]
  cases Entry.ofJson json with
  | blank => simp
  | filled value => simp [mapError_eq_ok_iff]
  | unsupported => simp

/-- A node is imported if its name is new, its type is a kind and all entries of its form are
    imported. -/
theorem importNode_eq_ok_iff {node : Node} :
    importNode imported node = .ok next ↔ ¬ (imported.blockFor? node.id).isSome = true ∧
      ∃ kind, Kind.ofName node.type = .ok kind ∧
      ∃ g, node.values.entries.foldlM (importEntry node.id imported.graph.nextBlock)
        (imported.graph.addBlock kind).2 = .ok g ∧
      ⟨g, imported.nodeNames.insert imported.graph.nextBlock node.id⟩ = next := by
  simp only [importNode, bind_eq_ok_iff, throw_or_eq_ok_iff, mapError_eq_ok_iff, pure, Except.pure,
    Except.ok.injEq, Graph.addBlock]

/-- An edge is imported if it is a link between blocks, which fits if the rules are asked for. -/
theorem importEdge_eq_ok_iff {edge : Edge × Nat} :
    importEdge policy imported edge = .ok next ↔
      ∃ link, edge.1.toLink imported (edge.1.label edge.2) = .ok link ∧
        (policy = .ruled → imported.graph.Fits link) ∧
        { imported with graph := (imported.graph.drawLink link).2 } = next := by
  rw [importEdge, bind_eq_ok_iff]
  refine exists_congr fun link => and_congr_right fun _ => ?_
  cases policy with
  | ruled =>
    simp only [bind_eq_ok_iff, mapError_eq_ok_iff, pure, Except.pure, Except.ok.injEq, Prod.exists,
      Graph.addLink_eq_ok_iff, forall_const]
    constructor
    · rintro ⟨id, g, ⟨hfits, hdraw⟩, rfl⟩
      rw [hdraw]
      exact ⟨hfits, rfl⟩
    · rintro ⟨hfits, rfl⟩
      exact ⟨_, _, ⟨hfits, rfl⟩, rfl⟩
  | unruled => simp [pure, Except.pure]

/-- A link stands for an edge: it leaves the block of the edge's source by the handle of its name,
    and ends at the slot of the block of the edge's target. -/
structure Edge.IsLink (imported : Imported) (edge : Edge) (link : Link) : Prop where
  source : imported.blockFor? edge.source = some link.source
  handle : link.handle.name = edge.sourceHandle
  target : imported.blockFor? edge.target = some link.target
  slot : edge.targetHandle = slotName

theorem toLink_eq_ok_iff {edge : Edge} {label : String} {link : Link} :
    edge.toLink imported label = .ok link ↔ edge.IsLink imported link := by
  have hfields : edge.IsLink imported link ↔ imported.blockFor? edge.source = some link.source ∧
      Handle.ofName? edge.sourceHandle = some link.handle ∧
      imported.blockFor? edge.target = some link.target ∧ edge.targetHandle = slotName := by
    rw [Handle.ofName?_eq_some_iff]
    exact ⟨fun h => ⟨h.source, h.handle, h.target, h.slot⟩, fun ⟨hs, hh, ht, hi⟩ => ⟨hs, hh, ht, hi⟩⟩
  rw [hfields, Edge.toLink]
  cases imported.blockFor? edge.source with
  | none => simp [throw, throwThe, MonadExceptOf.throw]
  | some source =>
    cases Handle.ofName? edge.sourceHandle with
    | none => simp [throw, throwThe, MonadExceptOf.throw]
    | some handle =>
      cases imported.blockFor? edge.target with
      | none => simp [throw, throwThe, MonadExceptOf.throw]
      | some target =>
        obtain ⟨linkSource, linkHandle, linkTarget⟩ := link
        simp only [throw_or_eq_ok_iff, pure, Except.pure, Except.ok.injEq, Option.some.injEq,
          Link.mk.injEq, not_not]
        grind

theorem contains_of_blockFor? {node : String} {id : BlockId}
    (hfound : imported.blockFor? node = some id) : imported.nodeNames.contains id = true := by
  rw [Imported.blockFor?, Option.map_eq_some_iff] at hfound
  obtain ⟨⟨id', name⟩, hentry, rfl⟩ := hfound
  exact Table.contains_of_get? (Table.mem_entries_iff.1 (List.mem_of_find?_eq_some hentry))

/-- Entering the form of a node changes nothing but values. -/
theorem sound_of_importEntries {node : String} {id : BlockId} {entries : List (String × Json)}
    {g h : Graph} (hg : g.Sound) (hok : entries.foldlM (importEntry node id) g = .ok h) :
    h.Sound ∧ (∀ other, h.blocks.contains other = g.blocks.contains other) ∧
      h.nextBlock = g.nextBlock ∧ h.nextLink = g.nextLink := by
  refine foldlM_induction (motive := fun _ h => h.Sound ∧
    (∀ other, h.blocks.contains other = g.blocks.contains other) ∧
      h.nextBlock = g.nextBlock ∧ h.nextLink = g.nextLink) ?_ ⟨hg, fun _ => rfl, rfl, rfl⟩ hok
  rintro ⟨name, json⟩ _ between next ⟨hsound, hcontains, hnextBlock, hnextLink⟩ hstep
  obtain ⟨-, rfl⟩ | ⟨value, -, hset⟩ := importEntry_eq_ok_iff.1 hstep
  · exact ⟨hsound, hcontains, hnextBlock, hnextLink⟩
  · have hvalues := Graph.revalues_of_setValue hset
    refine ⟨hsound.revalues hvalues, fun other => ?_, ?_, ?_⟩
    · rw [hvalues.contains_eq, hcontains]
    · obtain ⟨_, _, _, _, _, rfl⟩ := hvalues
      exact hnextBlock
    · obtain ⟨_, _, _, _, _, rfl⟩ := hvalues
      exact hnextLink

/-- The graph imported so far is sound, knows the blocks of the document's nodes, and has used up a
    number of identifiers of each sort. -/
structure Built (imported : Imported) (blocks links : Nat) : Prop where
  sound : imported.graph.Sound
  named : ∀ id, imported.nodeNames.contains id = true → imported.graph.blocks.contains id = true
  nextBlock : imported.graph.nextBlock.number.toNat = blocks
  nextLink : imported.graph.nextLink.number.toNat = links

theorem built_empty : Built {} 0 0 where
  sound := Graph.sound_empty
  named id hid := by cases hid
  nextBlock := rfl
  nextLink := rfl

/-- A node that is imported adds one block to what has been built. -/
theorem Built.importNode {blocks links : Nat} {node : Node} (hbuilt : Built imported blocks links)
    (hroom : blocks + 1 < 2 ^ 64) (hok : importNode imported node = .ok next) :
    Built next (blocks + 1) links := by
  obtain ⟨-, kind, -, g, hentries, rfl⟩ := importNode_eq_ok_iff.1 hok
  have hnextBlock := hbuilt.nextBlock
  have hadded := hbuilt.sound.addBlock (by omega) kind
  obtain ⟨hsound, hcontains, hblock, hlink⟩ := sound_of_importEntries hadded hentries
  refine ⟨hsound, ?_, ?_, ?_⟩
  · intro id hid
    rw [hcontains]
    change (imported.graph.blocks.insert imported.graph.nextBlock { kind }).contains id = true
    rw [Table.contains_insert] at hid ⊢
    exact hid.imp_right (hbuilt.named id)
  · rw [hblock]
    have hnext : (imported.graph.addBlock kind).2.nextBlock.number.toNat =
        imported.graph.nextBlock.number.toNat + 1 := Id.toNat_next (by omega)
    omega
  · rw [hlink]
    exact hbuilt.nextLink

/-- An edge that is imported adds one link to what has been built. -/
theorem Built.importEdge {blocks links : Nat} {edge : Edge × Nat}
    (hbuilt : Built imported blocks links) (hroom : links + 1 < 2 ^ 64)
    (hok : importEdge policy imported edge = .ok next) : Built next blocks (links + 1) := by
  obtain ⟨link, hlink, -, rfl⟩ := importEdge_eq_ok_iff.1 hok
  have hends := toLink_eq_ok_iff.1 hlink
  have hnextLink := hbuilt.nextLink
  refine ⟨hbuilt.sound.drawLink (by omega) ?_ ?_, ?_, ?_, ?_⟩
  · exact hbuilt.named _ (contains_of_blockFor? hends.source)
  · exact hbuilt.named _ (contains_of_blockFor? hends.target)
  · intro id hid
    rw [Graph.drawLink_eq, Graph.contains_recountWhere]
    exact hbuilt.named id hid
  · exact hbuilt.nextBlock
  · rw [Graph.drawLink_eq, Id.toNat_next (by omega), hnextLink]

/-- A document is imported node by node and then edge by edge. -/
theorem toGraph_eq_ok_iff {canvas : Canvas} :
    canvas.toGraph policy = .ok imported ↔
      ∃ bare, canvas.nodes.foldlM importNode {} = .ok bare ∧
        canvas.edges.zipIdx.foldlM (importEdge policy) bare = .ok imported := by
  rw [toGraph, bind_eq_ok_iff]

/-- The nodes of a document give a sound graph with as many blocks. -/
theorem built_of_importNodes {nodes : List Node} (hnodes : nodes.length < 2 ^ 64)
    (hok : nodes.foldlM importNode {} = .ok imported) : Built imported nodes.length 0 := by
  refine foldlM_counting (motive := fun n imported => Built imported n 0) ?_ built_empty hok
  intro n node imported next hn hbuilt hstep
  exact hbuilt.importNode (by omega) hstep

theorem Built.links_eq_empty {blocks : Nat} (hbuilt : Built imported blocks 0) :
    imported.graph.links = ∅ := by
  apply Table.eq_of_get?
  intro k
  rw [Table.get?_empty, Table.get?_eq_none_iff]
  intro hk
  have hbelow := Id.number_lt_iff.1 (hbuilt.sound.linkBelow k hk)
  have hnextLink := hbuilt.nextLink
  omega

/-- A document of fewer nodes and edges than there are identifiers is imported as a sound graph. -/
theorem built_of_toGraph {canvas : Canvas} (hnodes : canvas.nodes.length < 2 ^ 64)
    (hedges : canvas.edges.length < 2 ^ 64) (hok : canvas.toGraph policy = .ok imported) :
    Built imported canvas.nodes.length canvas.edges.length := by
  obtain ⟨bare, hbare, hlast⟩ := toGraph_eq_ok_iff.1 hok
  have hlinks : Built imported canvas.nodes.length canvas.edges.zipIdx.length := by
    refine foldlM_counting (motive := fun n imported => Built imported canvas.nodes.length n) ?_
      (built_of_importNodes hnodes hbare) hlast
    intro n edge imported next hn hbuilt hstep
    rw [List.length_zipIdx] at hn
    exact hbuilt.importEdge (by omega) hstep
  rwa [List.length_zipIdx] at hlinks

end Canvas

end CommandBlocks
