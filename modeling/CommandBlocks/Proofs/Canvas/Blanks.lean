import CommandBlocks.Proofs.Canvas.Forms
import CommandBlocks.Proofs.Program.Entered
import CommandBlocks.Proofs.Program.Regular

namespace CommandBlocks

/-- Adding a block with values goes together with leaving out values that do not count as
    entered. -/
theorem Graph.addFilled_trimmed (g : Graph) (kind : Kind) (values : Table Parameter Value) :
    (g.addFilled kind values).trimmed = g.trimmed.addFilled kind (enteredValues values) := by
  refine congrArg (Graph.mk · g.links g.nextBlock.next g.nextLink) (Table.eq_of_get? fun id => ?_)
  simp only [addFilled, trimmed, Table.get?_map, Table.get?_insert]
  by_cases hid : id = g.nextBlock
  · rw [if_pos hid, if_pos hid]
    rfl
  · rw [if_neg hid, if_neg hid]

/-- An imported graph without the values that count as not entered. -/
def Imported.trimmed (imported : Imported) : Imported :=
  ⟨imported.graph.trimmed, imported.nodeNames⟩

namespace Canvas

/-- A form leaves a parameter blank: it has no entry for it, or `null`, or a text of white space. -/
inductive LeftBlank : Option Json → Prop
  | absent : LeftBlank none
  | null : LeftBlank (some .null)
  | text {s : String} (blank : ∀ c ∈ s.toList, Text.isBlank c = true) :
    LeftBlank (some (.string s))

/-- Two nodes are the same but for how parameters that their kind declares are left blank. -/
structure Node.Interchangeable (node other : Node) : Prop where
  id : node.id = other.id
  type : node.type = other.type
  values : ∀ name, node.values.get? name = other.values.get? name ∨
    (∃ kind : Kind, kind.name = node.type ∧ kind.Declares name) ∧
      LeftBlank (node.values.get? name) ∧ LeftBlank (other.values.get? name)

/-- Two documents are the same but for how declared parameters are left blank. -/
structure Interchangeable (canvas other : Canvas) : Prop where
  nodes : List.Forall₂ Node.Interchangeable canvas.nodes other.nodes
  edges : canvas.edges = other.edges

section Form

variable {node name : String} {id : BlockId} {kind : Kind} {json : Json}
  {values values' next : Table Parameter Value}

/-- An entry of a form counts for a kind of block if a value comes of it that counts as entered, or
    a fault. -/
def counts (kind : Kind) (name : String) (json : Json) : Bool :=
  match Entry.ofJson json with
  | .blank => false
  | .filled value => !value.isUnset || !decide (kind.Declares name)
  | .unsupported => true

/-- An entry that is left blank does not count. -/
theorem filter_counts_of_leftBlank (hdeclared : kind.Declares name) {json : Option Json}
    (hblank : LeftBlank json) : json.filter (counts kind name) = none := by
  cases hblank with
  | absent => rfl
  | null => rfl
  | @text s hblank =>
    have hunset : (Value.text s).isUnset = true := List.all_eq_true.2 hblank
    have hnot : counts kind name (.string s) = false := by
      simp [counts, Entry.ofJson, hunset, hdeclared]
    rw [Option.filter_some, hnot]
    rfl

/-- Values that do not count as entered matter to no entry of a form. -/
theorem enterEntry_congr (hsame : enteredValues values = enteredValues values')
    (entry : String × Json) :
    (enterEntry node id kind values entry).map enteredValues =
      (enterEntry node id kind values' entry).map enteredValues := by
  rw [enterEntry, enterEntry]
  cases Entry.ofJson entry.2 with
  | unsupported => rfl
  | blank => exact congrArg Except.ok hsame
  | filled value =>
    cases hinput : kind.inputNamed? entry.1 with
    | none => rfl
    | some input =>
      exact congrArg Except.ok (enteredValues_insert_congr hsame input.parameter value)

/-- An entry that does not count changes no value that does. -/
theorem enterEntry_of_not_counts (hnot : counts kind name json = false)
    (hfresh : ∀ parameter : Parameter, parameter.name = name → values.get? parameter = none) :
    ∃ next, enterEntry node id kind values (name, json) = .ok next ∧
      enteredValues next = enteredValues values := by
  rw [counts] at hnot
  rw [enterEntry]
  cases hentry : Entry.ofJson json with
  | unsupported => simp [hentry] at hnot
  | blank => exact ⟨values, rfl, rfl⟩
  | filled value =>
    simp only [hentry, Bool.or_eq_false_iff, Bool.not_eq_false', decide_eq_true_eq] at hnot
    obtain ⟨hunset, hdeclared⟩ := hnot
    cases hinput : kind.inputNamed? name with
    | none => exact absurd hdeclared (Kind.inputNamed?_eq_none_iff.1 hinput)
    | some input =>
      have hfresh := hfresh input.parameter (Kind.name_of_inputNamed? hinput)
      exact ⟨_, rfl, enteredValues_insert_of_isUnset hfresh hunset⟩

/-- An entry leaves the values of other parameters alone. -/
theorem get?_of_enterEntry (hok : enterEntry node id kind values (name, json) = .ok next)
    {parameter : Parameter} (hother : parameter.name ≠ name) :
    next.get? parameter = values.get? parameter := by
  rw [enterEntry] at hok
  cases hentry : Entry.ofJson json with
  | unsupported => simp [hentry] at hok
  | blank =>
    simp only [hentry, Except.ok.injEq] at hok
    rw [hok]
  | filled value =>
    cases hinput : kind.inputNamed? name with
    | none => simp [hentry, hinput] at hok
    | some input =>
      simp only [hentry, hinput, Except.ok.injEq] at hok
      have hname := Kind.name_of_inputNamed? hinput
      rw [← hok, Table.get?_insert_of_ne]
      rintro rfl
      exact hother hname

/-- Only the entries of a form that count make a difference to what is entered. -/
theorem foldlM_filter_counts {entries : List (String × Json)}
    (hnodup : (entries.map (·.1)).Nodup)
    (hfresh : ∀ parameter : Parameter, parameter.name ∈ entries.map (·.1) →
      values.get? parameter = none)
    (hsame : enteredValues values = enteredValues values') :
    (entries.foldlM (enterEntry node id kind) values).map enteredValues =
      ((entries.filter fun entry => counts kind entry.1 entry.2).foldlM (enterEntry node id kind)
        values').map enteredValues := by
  induction entries generalizing values values' with
  | nil => exact congrArg Except.ok hsame
  | cons entry rest ih =>
    obtain ⟨name, json⟩ := entry
    rw [List.map_cons, List.nodup_cons] at hnodup
    have hkept : ∀ next, enterEntry node id kind values (name, json) = .ok next →
        ∀ parameter : Parameter, parameter.name ∈ rest.map (·.1) →
          next.get? parameter = none := by
      intro next hnext parameter hmem
      have hother : parameter.name ≠ name := fun heq => hnodup.1 (heq ▸ hmem)
      rw [get?_of_enterEntry hnext hother]
      exact hfresh parameter (List.mem_cons_of_mem _ hmem)
    rw [List.foldlM_cons]
    by_cases hcounts : counts kind name json = true
    · rw [List.filter_cons_of_pos (by exact hcounts), List.foldlM_cons]
      refine map_bind_congr (enterEntry_congr hsame (name, json)) ?_
      intro next next' hnext _ hnextSame
      exact ih hnodup.2 (hkept next hnext) hnextSame
    · rw [List.filter_cons_of_neg (by exact hcounts)]
      have hname : ∀ parameter : Parameter, parameter.name = name →
          values.get? parameter = none :=
        fun parameter heq => hfresh parameter (heq ▸ List.mem_cons_self)
      obtain ⟨next, hnext, hentered⟩ :=
        enterEntry_of_not_counts (Bool.eq_false_iff.2 hcounts) hname
      rw [hnext]
      exact ih hnodup.2 (hkept next hnext) (hentered.trans hsame)

/-- Forms that differ in how they leave declared parameters blank give the same values as entered,
    or the same fault. -/
theorem formValues_congr {form form' : Table String Json}
    (hform : ∀ name, form.get? name = form'.get? name ∨
      kind.Declares name ∧ LeftBlank (form.get? name) ∧ LeftBlank (form'.get? name)) :
    (formValues node id kind form.entries).map enteredValues =
      (formValues node id kind form'.entries).map enteredValues := by
  have hcounting : form.filter (counts kind) = form'.filter (counts kind) := by
    apply Table.eq_of_get?
    intro name
    rw [Table.get?_filter, Table.get?_filter]
    obtain hsame | ⟨hdeclared, hblank, hblank'⟩ := hform name
    · rw [hsame]
    · rw [filter_counts_of_leftBlank hdeclared hblank,
        filter_counts_of_leftBlank hdeclared hblank']
  have hcounted : ∀ form : Table String Json,
      (formValues node id kind form.entries).map enteredValues =
        (formValues node id kind (form.filter (counts kind)).entries).map enteredValues :=
    fun form => foldlM_filter_counts form.nodup_keys (fun _ _ => rfl) rfl
  rw [hcounted form, hcounted form', hcounting]

end Form

section Import

variable {imported imported' : Imported} {policy : EdgePolicy}

/-- Interchangeable nodes are imported alike, up to what does not count as entered. -/
theorem importNode_trimmed_congr (hsame : imported.trimmed = imported'.trimmed)
    {node node' : Node} (hnode : node.Interchangeable node') :
    (importNode imported node).map Imported.trimmed =
      (importNode imported' node').map Imported.trimmed := by
  have hgraph : imported.graph.trimmed = imported'.graph.trimmed := congrArg (·.graph) hsame
  have hnext : imported.graph.nextBlock = imported'.graph.nextBlock := congrArg (·.nextBlock) hgraph
  have hnames : imported.nodeNames = imported'.nodeNames := congrArg (·.nodeNames) hsame
  have hblock : imported.blockFor? node.id = imported'.blockFor? node.id := by
    rw [Imported.blockFor?, Imported.blockFor?, hnames]
  rw [importNode_eq, importNode_eq, ← hnode.id, ← hnode.type, hblock, hnext, hnames]
  by_cases hrepeated : (imported'.blockFor? node.id).isSome = true
  · rw [if_pos hrepeated, if_pos hrepeated]
  · rw [if_neg hrepeated, if_neg hrepeated]
    cases hkind : Kind.ofName node.type with
    | error unknown => rfl
    | ok kind =>
      have hform : ∀ name, node.values.get? name = node'.values.get? name ∨
          kind.Declares name ∧ LeftBlank (node.values.get? name) ∧
            LeftBlank (node'.values.get? name) := by
        intro name
        refine (hnode.values name).imp_right ?_
        rintro ⟨⟨named, hname, hdeclares⟩, hblank⟩
        obtain rfl := Except.ok.inj (hkind.symm.trans (Kind.ofName_eq_ok_iff.2 hname))
        exact ⟨hdeclares, hblank⟩
      change (formValues node.id imported'.graph.nextBlock kind node.values.entries >>= _).map _ =
        (formValues node.id imported'.graph.nextBlock kind node'.values.entries >>= _).map _
      refine map_bind_congr (formValues_congr hform) fun values values' _ _ hvalues => ?_
      refine congrArg (fun graph => Except.ok (Imported.mk graph _)) ?_
      rw [Graph.addFilled_trimmed, Graph.addFilled_trimmed, hgraph, hvalues]

/-- Interchangeable lists of nodes are imported alike, up to what does not count as entered. -/
theorem importNodes_trimmed_congr {nodes nodes' : List Node}
    (hnodes : List.Forall₂ Node.Interchangeable nodes nodes')
    (hsame : imported.trimmed = imported'.trimmed) :
    (nodes.foldlM importNode imported).map Imported.trimmed =
      (nodes'.foldlM importNode imported').map Imported.trimmed := by
  induction hnodes generalizing imported imported' with
  | nil => exact congrArg Except.ok hsame
  | cons hnode _ ih =>
    rw [List.foldlM_cons, List.foldlM_cons]
    exact map_bind_congr (importNode_trimmed_congr hsame hnode) fun _ _ _ _ hnext => ih hnext

/-- Edges are drawn alike whatever is entered for the blocks. -/
theorem importEdge_trimmed (imported : Imported) (edge : Edge × Nat) :
    importEdge policy imported.trimmed edge =
      (importEdge policy imported edge).map Imported.trimmed := by
  have hlink : edge.1.toLink imported.trimmed (edge.1.label edge.2) =
      edge.1.toLink imported (edge.1.label edge.2) := rfl
  rw [importEdge, importEdge, hlink]
  cases edge.1.toLink imported (edge.1.label edge.2) with
  | error fault => rfl
  | ok link =>
    cases policy with
    | ruled =>
      change ((imported.graph.trimmed.addLink link).mapError _ >>= _) =
        ((imported.graph.addLink link).mapError _ >>= _).map _
      rw [Graph.addLink_trimmed]
      cases imported.graph.addLink link with
      | error refusal => rfl
      | ok added => rfl
    | unruled =>
      change Except.ok (Imported.mk (imported.graph.trimmed.drawLink link).2 _) =
        Except.ok (Imported.mk (imported.graph.drawLink link).2.trimmed _)
      rw [Graph.drawLink_trimmed]
      rfl

/-- Interchangeable documents are imported alike, up to what does not count as entered. -/
theorem toGraph_trimmed_congr {canvas other : Canvas} (hcanvas : canvas.Interchangeable other)
    (policy : EdgePolicy) :
    (canvas.toGraph policy).map Imported.trimmed = (other.toGraph policy).map Imported.trimmed := by
  rw [toGraph, toGraph, hcanvas.edges]
  refine map_bind_congr (importNodes_trimmed_congr hcanvas.nodes rfl) fun bare bare' _ _ hbare => ?_
  rw [← foldlM_hom importEdge_trimmed, ← foldlM_hom importEdge_trimmed, hbare]

end Import

/-- How a parameter is left blank makes no difference. Documents that differ only in it are imported
    as graphs that compile to the same result, or end in the same fault of the import; taking away a
    value that is a text of white space never changes the result of compiling; and nothing is said
    of a parameter that is not set, neither by a statement nor by a fault in a number. -/
theorem compile_of_interchangeable (options : Options) :
    (∀ (canvas other : Canvas) (policy : EdgePolicy), canvas.Interchangeable other →
      (canvas.toGraph policy).map (fun imported =>
          (imported.nodeNames, imported.graph.compile options)) =
        (other.toGraph policy).map fun imported =>
          (imported.nodeNames, imported.graph.compile options)) ∧
    (∀ (g : Graph) (id : BlockId) (name s : String),
      (g.blocks.get? id).bind (·.valueNamed? name) = some (.text s) →
      (∀ c ∈ s.toList, Text.isBlank c = true) →
      ∃ h, g.clearValue id name = .ok (some (.text s), h) ∧
        h.compile options = g.compile options) ∧
    (∀ (g : Graph) (program : Program), g.compile options = .ok program →
      ∀ statement ∈ program.statements, ∃ id block, g.blocks.get? id = some block ∧
        statement.kind = block.kind ∧ block.fields options id = .ok statement.fields ∧
        ∀ parameter value, (parameter, value) ∈ statement.fields →
          ∃ entered, block.entered? parameter = some entered) ∧
    ∀ (g : Graph) (id : BlockId) (parameter : Parameter) (found : String),
      g.compile options = .error (.input (.noNumber id parameter found)) →
      ∃ block entered, g.blocks.get? id = some block ∧
        block.entered? parameter = some entered ∧ entered.inMessage = found := by
  refine ⟨?_, ?_, ?_, ?_⟩
  · intro canvas other policy hcanvas
    have htrimmed : ∀ result : Except ImportFault Imported,
        result.map (fun imported => (imported.nodeNames, imported.graph.compile options)) =
          (result.map Imported.trimmed).map fun imported =>
            (imported.nodeNames, imported.graph.compile options) := by
      intro result
      cases result with
      | error fault => rfl
      | ok imported =>
        exact congrArg (fun compiled => Except.ok (imported.nodeNames, compiled))
          (Graph.compile_trimmed imported.graph options).symm
    rw [htrimmed, htrimmed (other.toGraph policy), toGraph_trimmed_congr hcanvas policy]
  · intro g id name s hstored hblank
    have hunset : (Value.text s).isUnset = true := List.all_eq_true.2 hblank
    obtain ⟨h, hclear, hsame⟩ := Graph.exists_clearValue_trimmed hstored hunset
    refine ⟨h, hclear, ?_⟩
    rw [← Graph.compile_trimmed h, hsame, Graph.compile_trimmed]
  · intro g program hcompile statement hmem
    obtain ⟨id, block, hget, hkind, hfields⟩ := Graph.exists_isStatementOf_of_compile hcompile hmem
    exact ⟨id, block, hget, hkind, hfields, fun _ _ => Block.exists_entered?_of_mem_fields hfields⟩
  · intro g id parameter found herror
    obtain ⟨block, hget, hfields⟩ := Graph.exists_of_compile_eq_input herror
    obtain ⟨entered, hentered, hfound⟩ := Block.exists_entered?_of_noNumber hfields
    exact ⟨block, entered, hget, hentered, hfound⟩

/-- A document of a rest and of a photo that is taken then. -/
def restCanvas (form : Table String Json) : Canvas where
  nodes := [⟨"rest", "wait-sec", form⟩, ⟨"photo", "capture-image", ∅⟩]
  edges := [⟨"", "rest", "out", "photo", "in"⟩]

def restImport : Imported where
  graph := {
    blocks := .ofList [(⟨0⟩, { kind := .waitSeconds }), (⟨1⟩, { kind := .captureImage })],
    links := .ofList [(⟨0⟩, ⟨⟨0⟩, .next, ⟨1⟩⟩)],
    nextBlock := ⟨2⟩,
    nextLink := ⟨1⟩ }
  nodeNames := .ofList [(⟨0⟩, "rest"), (⟨1⟩, "photo")]

theorem interchangeable_restCanvas {json : Json} (hblank : LeftBlank (some json)) :
    (restCanvas ∅).Interchangeable (restCanvas (.ofList [("duration", json)])) := by
  have hform : ∀ name, (∅ : Table String Json).get? name =
      ((∅ : Table String Json).insert "duration" json).get? name ∨
        (∃ kind : Kind, kind.name = "wait-sec" ∧ kind.Declares name) ∧
          LeftBlank ((∅ : Table String Json).get? name) ∧
            LeftBlank (((∅ : Table String Json).insert "duration" json).get? name) := by
    intro name
    by_cases hname : name = "duration"
    · rw [hname, Table.get?_insert_self]
      exact .inr ⟨⟨.waitSeconds, rfl, by decide⟩, .absent, hblank⟩
    · exact .inl (Table.get?_insert_of_ne _ _ hname).symm
  exact ⟨.cons ⟨rfl, rfl, hform⟩ (.cons ⟨rfl, rfl, fun _ => .inl rfl⟩ .nil), rfl⟩

def restBlock (duration : String) : Block where
  kind := .waitSeconds
  values := .ofList [(.duration, .text duration)]

def restGraph (duration : String) : Graph where
  blocks := .ofList [(⟨0⟩, restBlock duration)]
  nextBlock := ⟨1⟩

/-- The missing duration is reported whichever way it is left blank, a blank one is cleared to no
    effect, and one that is said or found to be no number is entered. -/
theorem compile_restCanvas :
    ((restCanvas (.ofList [("duration", .null)])).toGraph .ruled).map
        (fun imported => (imported.nodeNames, imported.graph.compile ⟨true, true⟩)) =
      .ok (.ofList [(⟨0⟩, "rest"), (⟨1⟩, "photo")], .error (.input (.missing ⟨0⟩ .duration))) ∧
    ((restCanvas (.ofList [("duration", .string " \u2003")])).toGraph .ruled).map
        (fun imported => (imported.nodeNames, imported.graph.compile ⟨true, true⟩)) =
      .ok (.ofList [(⟨0⟩, "rest"), (⟨1⟩, "photo")], .error (.input (.missing ⟨0⟩ .duration))) ∧
    (∃ h, (restGraph "\t").clearValue ⟨0⟩ "duration" = .ok (some (.text "\t"), h) ∧
      h.compile {} = .ok [.mk .waitSeconds [] none]) ∧
    ((restGraph "soon").compile {} = .error (.input (.noNumber ⟨0⟩ .duration "soon")) ∧
      ∃ block entered, (restGraph "soon").blocks.get? ⟨0⟩ = some block ∧
        block.entered? .duration = some entered ∧ entered.inMessage = "soon") ∧
    (restGraph "soon").compile ⟨true, false⟩ =
        .ok [.mk .waitSeconds [(.duration, .text "soon")] none] ∧
      ∃ id block, (restGraph "soon").blocks.get? id = some block ∧ Kind.waitSeconds = block.kind ∧
        ∃ entered, block.entered? .duration = some entered := by
  have habsent : ((restCanvas ∅).toGraph .ruled).map
      (fun imported => (imported.nodeNames, imported.graph.compile ⟨true, true⟩)) =
        .ok (.ofList [(⟨0⟩, "rest"), (⟨1⟩, "photo")],
          .error (.input (.missing ⟨0⟩ .duration))) := by
    have himport : (restCanvas ∅).toGraph .ruled = .ok restImport := by with_unfolding_all rfl
    have hcompile : restImport.graph.compile ⟨true, true⟩ =
        .error (.input (.missing ⟨0⟩ .duration)) := by
      cbv
    rw [himport, Except.map, hcompile]
    rfl
  have htab : (restGraph "\t").compile {} = .ok [.mk .waitSeconds [] none] := by cbv
  have hsoon : (restGraph "soon").compile {} =
      .error (.input (.noNumber ⟨0⟩ .duration "soon")) := by
    have hfields : (restBlock "soon").fields {} ⟨0⟩ = .error (.noNumber ⟨0⟩ .duration "soon") := by
      decide +kernel
    have hshape : (restGraph "soon").shapeFault? = none := by cbv
    have hroots : (restGraph "soon").roots = [⟨0⟩] := by cbv
    have hkeys : (restGraph "soon").blocks.keys = [⟨0⟩] := by cbv
    have hget : (restGraph "soon").blocks.get? ⟨0⟩ = some (restBlock "soon") := by cbv
    simp only [Graph.compile, hshape, hroots, hkeys, Graph.build, hget, List.mem_singleton,
      if_true, hfields]
  have hsaid : (restGraph "soon").compile ⟨true, false⟩ =
      .ok [.mk .waitSeconds [(.duration, .text "soon")] none] := by cbv
  obtain ⟨hcanvas, -, -, -⟩ := compile_of_interchangeable ⟨true, true⟩
  obtain ⟨-, hclear, -, hfault⟩ := compile_of_interchangeable {}
  obtain ⟨-, -, hfields, -⟩ := compile_of_interchangeable ⟨true, false⟩
  refine ⟨?_, ?_, ?_, ⟨hsoon, hfault _ _ _ _ hsoon⟩, hsaid, ?_⟩
  · rw [← habsent, ← hcanvas _ _ .ruled (interchangeable_restCanvas .null)]
  · have hblank : LeftBlank (some (.string " \u2003")) := .text (List.all_eq_true.1 rfl)
    rw [← habsent, ← hcanvas _ _ .ruled (interchangeable_restCanvas hblank)]
  · rw [← htab]
    exact hclear (restGraph "\t") ⟨0⟩ "duration" "\t" (by decide) (List.all_eq_true.1 rfl)
  · obtain ⟨id, block, hget, hkind, -, hentered⟩ :=
      hfields (restGraph "soon") _ hsaid (.mk .waitSeconds [(.duration, .text "soon")] none)
        List.mem_cons_self
    exact ⟨id, block, hget, hkind, hentered .duration (.text "soon") (by decide)⟩

end Canvas

end CommandBlocks
