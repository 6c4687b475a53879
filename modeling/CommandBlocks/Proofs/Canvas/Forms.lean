import CommandBlocks.Proofs.Canvas.Import

namespace CommandBlocks

/-- The graph with one more block, for which values were entered already. -/
def Graph.addFilled (g : Graph) (kind : Kind) (values : Table Parameter Value) : Graph :=
  { g with
    blocks := g.blocks.insert g.nextBlock { kind, values }
    nextBlock := g.nextBlock.next }

namespace Canvas

variable {node : String} {id : BlockId} {kind : Kind}

/-- Enters one entry of a form among the values of a block. -/
def enterEntry (node : String) (id : BlockId) (kind : Kind) (values : Table Parameter Value)
    (entry : String × Json) : Except ImportFault (Table Parameter Value) :=
  match Entry.ofJson entry.2 with
  | .unsupported => .error (.unsupportedValue node entry.1)
  | .blank => .ok values
  | .filled value =>
    match kind.inputNamed? entry.1 with
    | none => .error (.graph (.unknownParameter id kind entry.1))
    | some input => .ok (values.insert input.parameter value)

/-- The values that a form gives to a block of a kind. -/
def formValues (node : String) (id : BlockId) (kind : Kind) (entries : List (String × Json)) :
    Except ImportFault (Table Parameter Value) :=
  entries.foldlM (enterEntry node id kind) ∅

/-- An entry is entered into the values of the block that was added last. -/
theorem importEntry_addFilled (g : Graph) (values : Table Parameter Value)
    (entry : String × Json) :
    importEntry node g.nextBlock (g.addFilled kind values) entry =
      (enterEntry node g.nextBlock kind values entry).map (g.addFilled kind) := by
  have hget : (g.addFilled kind values).blocks.get? g.nextBlock = some { kind, values } :=
    Table.get?_insert_self _ _ _
  rw [importEntry, enterEntry]
  cases Entry.ofJson entry.2 with
  | unsupported => rfl
  | blank => rfl
  | filled value =>
    simp only [Graph.setValue, hget]
    cases kind.inputNamed? entry.1 with
    | none => rfl
    | some input =>
      change Except.ok _ = Except.ok _
      rw [Graph.addFilled, Table.insert_insert]
      rfl

/-- The entries of a form are entered into a new block, and what they become does not depend on the
    graph. -/
theorem importEntries_addBlock (g : Graph) (entries : List (String × Json)) :
    entries.foldlM (importEntry node g.nextBlock) (g.addBlock kind).2 =
      (formValues node g.nextBlock kind entries).map (g.addFilled kind) :=
  foldlM_hom (importEntry_addFilled g) entries ∅

/-- A node is imported as a block of its kind with the values of its form, under the name of the
    node. -/
theorem importNode_eq (imported : Imported) (node : Node) :
    importNode imported node =
      if (imported.blockFor? node.id).isSome then .error (.repeatedNode node.id)
      else do
        let kind ← (Kind.ofName node.type).mapError (.unknownKind node.id)
        let values ← formValues node.id imported.graph.nextBlock kind node.values.entries
        return ⟨imported.graph.addFilled kind values,
          imported.nodeNames.insert imported.graph.nextBlock node.id⟩ := by
  rw [importNode]
  by_cases hrepeated : (imported.blockFor? node.id).isSome = true
  · rw [if_pos hrepeated, if_pos hrepeated]
    rfl
  · rw [if_neg hrepeated, if_neg hrepeated]
    cases (Kind.ofName node.type).mapError (ImportFault.unknownKind node.id) with
    | error fault => rfl
    | ok kind =>
      change (node.values.entries.foldlM (importEntry node.id imported.graph.nextBlock)
          (imported.graph.addBlock kind).2 >>= _) =
        formValues node.id imported.graph.nextBlock kind node.values.entries >>= _
      rw [importEntries_addBlock]
      cases formValues node.id imported.graph.nextBlock kind node.values.entries with
      | error fault => rfl
      | ok values => rfl

end Canvas

end CommandBlocks
