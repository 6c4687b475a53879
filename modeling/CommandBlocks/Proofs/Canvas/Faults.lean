import CommandBlocks.Proofs.Canvas.Contents
import CommandBlocks.Proofs.Canvas.Forms

namespace CommandBlocks.Canvas

variable {imported next : Imported} {policy : EdgePolicy} {fault : ImportFault}

/-- An entry of a form is bad for a block of a kind: it is no scalar, or a scalar under a name that
    the kind does not declare. Nothing is wrong with `null` under any name. -/
inductive BadEntry (node : String) (id : BlockId) (kind : Kind) :
    String × Json → ImportFault → Prop
  | array {name : String} {items : List Json} :
    BadEntry node id kind (name, .array items) (.unsupportedValue node name)
  | object {name : String} {members : List (String × Json)} :
    BadEntry node id kind (name, .object members) (.unsupportedValue node name)
  | undeclared {name : String} {json : Json} {value : Value} (scalar : json.EnteredAs value)
    (undeclared : ¬ kind.Declares name) :
    BadEntry node id kind (name, json) (.graph (.unknownParameter id kind name))

/-- An entry of a form is bad for a block of a kind, counted by its place among the names. -/
def BadEntryAt (node : String) (id : BlockId) (kind : Kind) (entries : List (String × Json))
    (n : Nat) (fault : ImportFault) : Prop :=
  ∃ entry ∈ entries[n]?, BadEntry node id kind entry fault

/-- A node is bad behind the nodes before it: its identifier is that of an earlier one, it names no
    kind, or its form has a bad entry, of which the first one counts. Each rule is broken by a node
    that breaks none of the rules before it. -/
inductive Node.Bad (earlier : List Node) (node : Node) : ImportFault → Prop
  | repeated (known : node.id ∈ earlier.map (·.id)) : Bad earlier node (.repeatedNode node.id)
  | unknownKind (fresh : node.id ∉ earlier.map (·.id))
    (unknown : ∀ kind : Kind, kind.name ≠ node.type) :
    Bad earlier node (.unknownKind node.id ⟨node.type⟩)
  | entry {kind : Kind} {n : Nat} {fault : ImportFault} (fresh : node.id ∉ earlier.map (·.id))
    (known : kind.name = node.type)
    (bad : BadEntryAt node.id ⟨.ofNat earlier.length⟩ kind node.values.entries n fault)
    (first : ∀ m < n, ∀ other,
      ¬ BadEntryAt node.id ⟨.ofNat earlier.length⟩ kind node.values.entries m other) :
    Bad earlier node fault

/-- What messages call the edge at a position: its own identifier, or else the position. -/
inductive Edge.Called (edge : Edge) (position : Nat) : String → Prop
  | own (given : edge.id ≠ "") : Called edge position edge.id
  | position (missing : edge.id = "") : Called edge position ("#" ++ toString position)

/-- An edge is bad behind the nodes of a document and the edges before it: its source is no node, it
    leaves its source by no handle, its target is no node, it does not end at the slot, or, under
    the rules for links, its link is refused by the graph of the nodes and the earlier edges. Each
    rule is broken by an edge that breaks none of the rules before it. -/
inductive Edge.Bad (nodes : List Node) (policy : EdgePolicy) (earlier : List Edge) (edge : Edge) :
    ImportFault → Prop
  | source {label : String} (called : edge.Called earlier.length label)
    (unknown : edge.source ∉ nodes.map (·.id)) :
    Bad nodes policy earlier edge (.unknownNode label edge.source)
  | sourceHandle {label : String} (called : edge.Called earlier.length label)
    (source : edge.source ∈ nodes.map (·.id))
    (unsupported : ∀ handle : Handle, handle.name ≠ edge.sourceHandle) :
    Bad nodes policy earlier edge (.unsupportedHandle label edge.sourceHandle)
  | target {label : String} {handle : Handle} (called : edge.Called earlier.length label)
    (source : edge.source ∈ nodes.map (·.id)) (leaves : handle.name = edge.sourceHandle)
    (unknown : edge.target ∉ nodes.map (·.id)) :
    Bad nodes policy earlier edge (.unknownNode label edge.target)
  | targetHandle {label : String} {handle : Handle} (called : edge.Called earlier.length label)
    (source : edge.source ∈ nodes.map (·.id)) (leaves : handle.name = edge.sourceHandle)
    (target : edge.target ∈ nodes.map (·.id)) (unsupported : edge.targetHandle ≠ slotName) :
    Bad nodes policy earlier edge (.unsupportedHandle label edge.targetHandle)
  | refused {label : String} {imported : Imported} {link : Link} {refusal : Refusal}
    (called : edge.Called earlier.length label) (ruled : policy = .ruled)
    (drawn : toGraph ⟨nodes, earlier⟩ .unruled = .ok imported) (stands : edge.IsLink imported link)
    (refused : imported.graph.refusal? link = some refusal) :
    Bad nodes policy earlier edge (.refused label refusal)

/-- A record of a document is bad, the edges counted on from the nodes. -/
inductive BadRecord (canvas : Canvas) (policy : EdgePolicy) : Nat → ImportFault → Prop
  | node {n : Nat} {node : Node} {fault : ImportFault} (record : canvas.nodes[n]? = some node)
    (bad : node.Bad (canvas.nodes.take n) fault) : BadRecord canvas policy n fault
  | edge {n : Nat} {edge : Edge} {fault : ImportFault} (record : canvas.edges[n]? = some edge)
    (bad : edge.Bad canvas.nodes policy (canvas.edges.take n) fault) :
    BadRecord canvas policy (canvas.nodes.length + n) fault

section Form

variable {node : String} {id : BlockId} {kind : Kind}

/-- An entry is refused exactly for what is bad about it. -/
theorem enterEntry_eq_error_iff {values : Table Parameter Value} {entry : String × Json} :
    enterEntry node id kind values entry = .error fault ↔ BadEntry node id kind entry fault := by
  obtain ⟨name, json⟩ := entry
  have hscalar : ∀ {value}, json.EnteredAs value →
      (enterEntry node id kind values (name, json) = .error fault ↔
        ¬ kind.Declares name ∧ .graph (.unknownParameter id kind name) = fault) := by
    intro value hentered
    rw [enterEntry, Entry.ofJson_eq_filled_iff.2 hentered, ← Kind.inputNamed?_eq_none_iff]
    cases kind.inputNamed? name with
    | none => simp
    | some input => simp
  constructor
  · intro herror
    cases json with
    | null => cases herror
    | array items =>
      cases herror
      exact .array
    | object members =>
      cases herror
      exact .object
    | boolean b =>
      obtain ⟨hundeclared, rfl⟩ := (hscalar (.boolean b)).1 herror
      exact .undeclared (.boolean b) hundeclared
    | number n =>
      cases n with
      | integer n =>
        have hentered := Json.EnteredAs.integer (Binary64.isNearest_ofInt n)
        obtain ⟨hundeclared, rfl⟩ := (hscalar hentered).1 herror
        exact .undeclared hentered hundeclared
      | binary x =>
        obtain ⟨hundeclared, rfl⟩ := (hscalar (.binary x)).1 herror
        exact .undeclared (.binary x) hundeclared
    | string s =>
      obtain ⟨hundeclared, rfl⟩ := (hscalar (.string s)).1 herror
      exact .undeclared (.string s) hundeclared
  · intro hbad
    cases hbad with
    | array => rfl
    | object => rfl
    | undeclared hentered hundeclared => exact (hscalar hentered).2 ⟨hundeclared, rfl⟩

/-- A form is refused for its first bad entry. -/
theorem formValues_eq_error_iff {entries : List (String × Json)} :
    formValues node id kind entries = .error fault ↔
      ∃ n, BadEntryAt node id kind entries n fault ∧
        ∀ m < n, ∀ other, ¬ BadEntryAt node id kind entries m other := by
  have hblames : Blames (enterEntry node id kind) ∅ entries (BadEntryAt node id kind entries) :=
    blames_of_getElem? fun _ _ _ _ _ _ => enterEntry_eq_error_iff
  exact hblames.foldlM_eq_error_iff

end Form

/-- The names that the import knows are those of the nodes. -/
def Knows (imported : Imported) (nodes : List Node) : Prop :=
  ∀ name, (imported.blockFor? name).isSome = true ↔ name ∈ nodes.map (·.id)

namespace Knows

variable {nodes : List Node} {name : String}

theorem exists_blockFor? (hknown : Knows imported nodes) (hname : name ∈ nodes.map (·.id)) :
    ∃ id, imported.blockFor? name = some id :=
  Option.isSome_iff_exists.1 ((hknown name).2 hname)

theorem mem_of_blockFor? (hknown : Knows imported nodes) {id : BlockId}
    (hid : imported.blockFor? name = some id) : name ∈ nodes.map (·.id) :=
  (hknown name).1 (Option.isSome_iff_exists.2 ⟨id, hid⟩)

/-- No block is found exactly for names of no node. -/
theorem blockFor?_eq_none_iff (hknown : Knows imported nodes) :
    imported.blockFor? name = none ↔ name ∉ nodes.map (·.id) := by
  rw [← hknown, Option.not_isSome_iff_eq_none]

end Knows

section Nodes

variable {earlier nodes : List Node}

/-- A node is refused exactly for what is bad about it, given the nodes before it. -/
theorem importNode_eq_error_iff (hknown : Knows imported earlier)
    (hnext : imported.graph.nextBlock = ⟨.ofNat earlier.length⟩) {node : Node} :
    importNode imported node = .error fault ↔ node.Bad earlier fault := by
  have hnew : node.id ∉ earlier.map (·.id) → ¬ (imported.blockFor? node.id).isSome = true :=
    fun hfresh hsome => hfresh ((hknown node.id).1 hsome)
  rw [importNode_eq, hnext]
  constructor
  · intro herror
    by_cases hrepeated : node.id ∈ earlier.map (·.id)
    · rw [if_pos ((hknown node.id).2 hrepeated)] at herror
      cases herror
      exact .repeated hrepeated
    · rw [if_neg (hnew hrepeated)] at herror
      cases hkind : Kind.ofName node.type with
      | error unknown =>
        obtain ⟨hunknown, rfl⟩ := Kind.ofName_eq_error_iff.1 hkind
        rw [hkind] at herror
        cases herror
        exact .unknownKind hrepeated hunknown
      | ok kind =>
        rw [hkind] at herror
        change (formValues node.id _ kind node.values.entries >>= _) = _ at herror
        obtain hform | ⟨values, -, hdone⟩ := bind_eq_error_iff.1 herror
        · obtain ⟨n, hbad, hfirst⟩ := formValues_eq_error_iff.1 hform
          exact .entry hrepeated (Kind.ofName_eq_ok_iff.1 hkind) hbad hfirst
        · -- once the form has values, nothing is left to do that could fail
          cases hdone
  · intro hbad
    cases hbad with
    | repeated hknownId =>
      rw [if_pos ((hknown node.id).2 hknownId)]
    | unknownKind hfresh hunknown =>
      rw [if_neg (hnew hfresh), Kind.ofName_eq_error_iff.2 ⟨hunknown, rfl⟩]
      rfl
    | entry hfresh hnamed hbad hfirst =>
      rw [if_neg (hnew hfresh), Kind.ofName_eq_ok_iff.2 hnamed]
      change (formValues _ _ _ node.values.entries >>= _) = _
      rw [formValues_eq_error_iff.2 ⟨_, hbad, hfirst⟩]
      rfl

/-- Behind nodes that were imported, their names are known and as many identifiers are used up. -/
theorem known_of_importNodes (hnodes : earlier.length < 2 ^ 64)
    (hok : earlier.foldlM importNode {} = .ok imported) :
    Knows imported earlier ∧ imported.graph.nextBlock = ⟨.ofNat earlier.length⟩ := by
  have hcopies := copies_of_importNodes hnodes hok
  have hbuilt := built_of_importNodes hnodes hok
  constructor
  · intro name
    rw [List.mem_map]
    constructor
    · intro hsome
      obtain ⟨id, hid⟩ := Option.isSome_iff_exists.1 hsome
      have hname := nodeName?_of_blockFor? hid
      rw [Imported.nodeName?, hcopies.names.get?_eq, Option.map_eq_some_iff] at hname
      obtain ⟨node, hnode, hname⟩ := hname
      exact ⟨node, List.mem_of_getElem? hnode, hname⟩
    · rintro ⟨node, hnode, rfl⟩
      obtain ⟨n, hn⟩ := List.mem_iff_getElem?.1 hnode
      have hlt : n < 2 ^ 64 := (List.getElem?_eq_some_iff.1 hn).1.trans hnodes
      have hname : imported.nodeName? ⟨.ofNat n⟩ = some node.id := by
        rw [Imported.nodeName?, hcopies.names.get?_eq, UInt64.toNat_ofNat_of_lt' hlt, hn]
        rfl
      exact isSome_blockFor? hname
  · apply Id.number_inj
    rw [← UInt64.toNat_inj, hbuilt.nextBlock, UInt64.toNat_ofNat_of_lt' hnodes]

/-- Of the nodes, the first bad one is to blame. -/
theorem blames_nodes (hnodes : nodes.length < 2 ^ 64) :
    Blames importNode {} nodes fun n fault =>
      ∃ node ∈ nodes[n]?, node.Bad (nodes.take n) fault := by
  refine blames_of_getElem? fun n node reached fault _ hreached => ?_
  have hfew : (nodes.take n).length < 2 ^ 64 := (List.length_take_le' n nodes).trans_lt hnodes
  obtain ⟨hknown, hnext⟩ := known_of_importNodes hfew hreached
  exact importNode_eq_error_iff hknown hnext

end Nodes

section Edges

variable {nodes : List Node} {earlier edges : List Edge}

/-- The label of an edge is what messages call it, and they call it nothing else. -/
theorem Edge.called_iff {edge : Edge} {position : Nat} {label : String} :
    edge.Called position label ↔ edge.label position = label := by
  rw [Edge.label]
  constructor
  · intro hcalled
    cases hcalled with
    | own hgiven => rw [if_neg (by simpa using hgiven)]
    | position hmissing =>
      rw [if_pos (by simpa using hmissing)]
      rfl
  · rintro rfl
    split_ifs with hid
    · exact .position (by simpa using hid)
    · exact .own (by simpa using hid)

/-- An edge that stands for no link is bad, whatever the policy for edges. -/
theorem bad_of_toLink_eq_error {edge : Edge} (hknown : Knows imported nodes)
    (herror : edge.toLink imported (edge.label earlier.length) = .error fault) :
    edge.Bad nodes policy earlier fault := by
  have hcalled : edge.Called earlier.length (edge.label earlier.length) := Edge.called_iff.2 rfl
  rw [Edge.toLink] at herror
  cases hsource : imported.blockFor? edge.source with
  | none =>
    simp only [hsource] at herror
    cases herror
    exact .source hcalled (hknown.blockFor?_eq_none_iff.1 hsource)
  | some source =>
    have hsourceKnown := hknown.mem_of_blockFor? hsource
    cases hhandle : Handle.ofName? edge.sourceHandle with
    | none =>
      simp only [hsource, hhandle] at herror
      cases herror
      exact .sourceHandle hcalled hsourceKnown (Handle.ofName?_eq_none_iff.1 hhandle)
    | some handle =>
      have hleaves := Handle.ofName?_eq_some_iff.1 hhandle
      cases htarget : imported.blockFor? edge.target with
      | none =>
        simp only [hsource, hhandle, htarget] at herror
        cases herror
        exact .target hcalled hsourceKnown hleaves (hknown.blockFor?_eq_none_iff.1 htarget)
      | some target =>
        simp only [hsource, hhandle, htarget, throw_or_eq_error_iff] at herror
        obtain ⟨hslot, rfl⟩ | ⟨-, hdone⟩ := herror
        · exact .targetHandle hcalled hsourceKnown hleaves (hknown.mem_of_blockFor? htarget) hslot
        · cases hdone

/-- What an edge is refused for is bad about it, given the edges before it. -/
theorem bad_of_importEdge_eq_error {edge : Edge} (hknown : Knows imported nodes)
    (hdrawn : toGraph ⟨nodes, earlier⟩ .unruled = .ok imported)
    (herror : importEdge policy imported (edge, earlier.length) = .error fault) :
    edge.Bad nodes policy earlier fault := by
  rw [importEdge, bind_eq_error_iff] at herror
  obtain hends | ⟨link, hlink, hrefused⟩ := herror
  · exact bad_of_toLink_eq_error hknown hends
  · cases policy with
    | unruled => cases hrefused
    | ruled =>
      rw [Graph.addLink] at hrefused
      cases hrefusal : imported.graph.refusal? link with
      | none =>
        rw [hrefusal] at hrefused
        cases hrefused
      | some refusal =>
        rw [hrefusal] at hrefused
        cases hrefused
        exact .refused (Edge.called_iff.2 rfl) rfl hdrawn (toLink_eq_ok_iff.1 hlink) hrefusal

/-- An edge is refused for what is bad about it, given the edges before it. -/
theorem Edge.Bad.importEdge_eq_error {edge : Edge} (hknown : Knows imported nodes)
    (hdrawn : toGraph ⟨nodes, earlier⟩ .unruled = .ok imported)
    (hbad : edge.Bad nodes policy earlier fault) :
    importEdge policy imported (edge, earlier.length) = .error fault := by
  cases hbad with
  | source hcalled hunknown =>
    obtain rfl := Edge.called_iff.1 hcalled
    rw [importEdge, Edge.toLink, hknown.blockFor?_eq_none_iff.2 hunknown]
    rfl
  | sourceHandle hcalled hsource hunsupported =>
    obtain rfl := Edge.called_iff.1 hcalled
    obtain ⟨source, hsource⟩ := hknown.exists_blockFor? hsource
    rw [importEdge, Edge.toLink, hsource, Handle.ofName?_eq_none_iff.2 hunsupported]
    rfl
  | target hcalled hsource hleaves hunknown =>
    obtain rfl := Edge.called_iff.1 hcalled
    obtain ⟨source, hsource⟩ := hknown.exists_blockFor? hsource
    rw [importEdge, Edge.toLink, hsource, Handle.ofName?_eq_some_iff.2 hleaves,
      hknown.blockFor?_eq_none_iff.2 hunknown]
    rfl
  | targetHandle hcalled hsource hleaves htarget hunsupported =>
    obtain rfl := Edge.called_iff.1 hcalled
    obtain ⟨source, hsource⟩ := hknown.exists_blockFor? hsource
    obtain ⟨target, htarget⟩ := hknown.exists_blockFor? htarget
    rw [importEdge, Edge.toLink, hsource, Handle.ofName?_eq_some_iff.2 hleaves, htarget]
    simp only [if_pos hunsupported]
    rfl
  | refused hcalled hruled hother hstands hrefused =>
    obtain rfl := Edge.called_iff.1 hcalled
    obtain rfl := Except.ok.inj (hdrawn.symm.trans hother)
    rw [importEdge, toLink_eq_ok_iff.2 hstands, hruled]
    change (((imported.graph.addLink _).mapError _) >>= _) = _
    rw [Graph.addLink, hrefused]
    rfl

/-- Drawing edges makes no names known and none unknown. -/
theorem nodeNames_of_importEdges {items : List (Edge × Nat)} {bare : Imported}
    (hok : items.foldlM (importEdge policy) bare = .ok imported) :
    imported.nodeNames = bare.nodeNames := by
  refine foldlM_induction (motive := fun _ imported => imported.nodeNames = bare.nodeNames) ?_ rfl
    hok
  intro edge _ between next hnames hstep
  obtain ⟨link, -, -, rfl⟩ := importEdge_eq_ok_iff.1 hstep
  exact hnames

/-- An edge that is drawn under the rules can be drawn without them. -/
theorem importEdge_unruled {edge : Edge × Nat} (hok : importEdge policy imported edge = .ok next) :
    importEdge .unruled imported edge = .ok next := by
  obtain ⟨link, hlink, -, hnext⟩ := importEdge_eq_ok_iff.1 hok
  exact importEdge_eq_ok_iff.2 ⟨link, hlink, nofun, hnext⟩

/-- Of the edges, the first bad one is to blame. -/
theorem blames_edges (hnodes : nodes.length < 2 ^ 64) {bare : Imported}
    (hbare : nodes.foldlM importNode {} = .ok bare) (policy : EdgePolicy) :
    Blames (importEdge policy) bare edges.zipIdx fun n fault =>
      ∃ edge ∈ edges[n]?, edge.Bad nodes policy (edges.take n) fault where
  inside n fault := by
    rintro ⟨edge, hedge, -⟩
    rw [List.length_zipIdx]
    exact (List.getElem?_eq_some_iff.1 hedge).1
  fails n item reached fault hitem hreached := by
    have htake : edges.zipIdx.take n = (edges.take n).zipIdx := by
      apply List.ext_getElem?
      intro m
      simp only [List.getElem?_take, List.getElem?_zipIdx]
      split <;> rfl
    rw [htake] at hreached
    rw [List.getElem?_zipIdx, Option.map_eq_some_iff] at hitem
    obtain ⟨edge, hedge, rfl⟩ := hitem
    have hlength : (edges.take n).length = n :=
      List.length_take_of_le (List.getElem?_eq_some_iff.1 hedge).1.le
    have hknown : Knows reached nodes := by
      intro name
      rw [Imported.blockFor?, nodeNames_of_importEdges hreached]
      exact (known_of_importNodes hnodes hbare).1 name
    have hdrawn : toGraph ⟨nodes, edges.take n⟩ .unruled = .ok reached :=
      toGraph_eq_ok_iff.2 ⟨bare, hbare, foldlM_mono (fun _ _ _ => importEdge_unruled) hreached⟩
    have hfails : importEdge policy reached (edge, (edges.take n).length) = .error fault ↔
        edge.Bad nodes policy (edges.take n) fault :=
      ⟨bad_of_importEdge_eq_error hknown hdrawn, Edge.Bad.importEdge_eq_error hknown hdrawn⟩
    rw [hlength] at hfails
    rw [Nat.zero_add, hfails]
    constructor
    · intro hbad
      exact ⟨edge, hedge, hbad⟩
    · rintro ⟨other, hother, hbad⟩
      obtain rfl := Option.some.inj (hedge.symm.trans hother)
      exact hbad

end Edges

/-- The records of a document are its nodes and then its edges. -/
theorem badRecord_iff {canvas : Canvas} {n : Nat} :
    BadRecord canvas policy n fault ↔
      (∃ node ∈ canvas.nodes[n]?, Node.Bad (canvas.nodes.take n) node fault) ∨
        ∃ k, n = canvas.nodes.length + k ∧ ∃ edge ∈ canvas.edges[k]?,
          Edge.Bad canvas.nodes policy (canvas.edges.take k) edge fault := by
  constructor
  · intro hbad
    cases hbad with
    | node hnode hbad => exact .inl ⟨_, hnode, hbad⟩
    | edge hedge hbad => exact .inr ⟨_, rfl, _, hedge, hbad⟩
  · rintro (⟨node, hnode, hbad⟩ | ⟨k, rfl, edge, hedge, hbad⟩)
    · exact .node hnode hbad
    · exact .edge hedge hbad

/-- A document is imported exactly if it has no bad record. If it has any, the import ends in the
    fault of the first one, the nodes coming before the edges and both in the order of the document.
    No document has as many nodes as there are identifiers of blocks. -/
theorem toGraph_eq_error_iff_first {canvas : Canvas} (hnodes : canvas.nodes.length < 2 ^ 64)
    (policy : EdgePolicy) :
    ((∃ fault, canvas.toGraph policy = .error fault) ↔
      ∃ n fault, BadRecord canvas policy n fault) ∧
    ∀ fault, canvas.toGraph policy = .error fault ↔
      ∃ n, BadRecord canvas policy n fault ∧
        ∀ m < n, ∀ other, ¬ BadRecord canvas policy m other := by
  have herror : ∀ fault, canvas.toGraph policy = .error fault ↔
      ∃ n, BadRecord canvas policy n fault ∧
        ∀ m < n, ∀ other, ¬ BadRecord canvas policy m other := by
    intro fault
    simp only [badRecord_iff]
    exact (blames_nodes hnodes).bind_foldlM_eq_error_iff fun _ hbare =>
      blames_edges hnodes hbare policy
  refine ⟨⟨?_, ?_⟩, herror⟩
  · rintro ⟨fault, hfault⟩
    obtain ⟨n, hbad, -⟩ := (herror fault).1 hfault
    exact ⟨n, fault, hbad⟩
  · intro hbad
    classical
    obtain ⟨fault, hfault⟩ := Nat.find_spec hbad
    exact ⟨fault, (herror fault).2 ⟨_, hfault, fun m hm other hother =>
      Nat.find_min hbad hm ⟨other, hother⟩⟩⟩

/-- A document in which what is repeated leads back to the loop, and that then draws on a block it
    does not have. -/
def knottedCanvas : Canvas where
  nodes := [⟨"loop", "repeat-n", .ofList [("count", .string "3"), ("note", .null)]⟩,
    ⟨"rest", "wait-sec", ∅⟩]
  edges := [⟨"nest", "loop", "child", "rest", "in"⟩, ⟨"", "rest", "out", "loop", "in"⟩,
    ⟨"draw", "moon", "side", "loop", "out"⟩]

theorem toGraph_knottedCanvas :
    knottedCanvas.nodes.length < 2 ^ 64 ∧
      knottedCanvas.toGraph .ruled = .error (.refused "#1" (.cycle ⟨1⟩ ⟨0⟩)) ∧
      (∃ n, BadRecord knottedCanvas .ruled n (.refused "#1" (.cycle ⟨1⟩ ⟨0⟩)) ∧
        ∀ m < n, ∀ other, ¬ BadRecord knottedCanvas .ruled m other) ∧
      knottedCanvas.toGraph .unruled = .error (.unknownNode "draw" "moon") ∧
      ∃ n, BadRecord knottedCanvas .unruled n (.unknownNode "draw" "moon") ∧
        ∀ m < n, ∀ other, ¬ BadRecord knottedCanvas .unruled m other := by
  have hnodes : knottedCanvas.nodes.length < 2 ^ 64 := by decide
  have hruled : knottedCanvas.toGraph .ruled = .error (.refused "#1" (.cycle ⟨1⟩ ⟨0⟩)) := by
    with_unfolding_all rfl
  have hunruled : knottedCanvas.toGraph .unruled = .error (.unknownNode "draw" "moon") := by
    with_unfolding_all rfl
  exact ⟨hnodes, hruled, ((toGraph_eq_error_iff_first hnodes .ruled).2 _).1 hruled, hunruled,
    ((toGraph_eq_error_iff_first hnodes .unruled).2 _).1 hunruled⟩

end CommandBlocks.Canvas
