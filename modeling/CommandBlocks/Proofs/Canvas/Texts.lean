import CommandBlocks.Proofs.Canvas.Contents
import CommandBlocks.Proofs.Editing.Saving
import CommandBlocks.Proofs.Json.Limits

namespace CommandBlocks.Canvas

open Json (Bounded RecordField bounded_readList bounded_readRecord bounded_readTable
  bounded_readText bounded_readValue size)

variable {limit : Nat}

/-- No entry of a form is a text beyond a limit. -/
def TextsWithin (limit : Nat) (values : Table String Json) : Prop :=
  ∀ name json, values.get? name = some json → json.textSize ≤ limit

theorem textsWithin_getD {table? : Option (Table String Json)}
    (htable : ∀ table ∈ table?, TextsWithin limit table) : TextsWithin limit (table?.getD ∅) := by
  cases table? with
  | none =>
    intro name json hget
    cases hget
  | some table => exact htable table rfl

theorem bounded_readData : Bounded limit (TextsWithin limit) readData := by
  intro cs values rest hcs hok
  obtain ⟨⟨table?, left⟩, hrecord, hok⟩ := bind_eq_ok_iff.1 hok
  cases hok
  refine And.imp_left textsWithin_getD (bounded_readRecord
    (fun table? : Option (Table String Json) => ∀ table ∈ table?, TextsWithin limit table)
    (List.forall_mem_singleton.2 ?_) _ (by simp) cs table? rest hcs hrecord)
  refine RecordField.keeps_optional (bounded_readTable (bounded_readValue _)) ?_
  rintro _ table - htable _ ⟨⟩
  exact htable

/-- The texts of a node's form are no longer than what the node is read from. -/
theorem bounded_readNode : Bounded limit (fun node => TextsWithin limit node.values) readNode := by
  intro cs node rest hcs hok
  obtain ⟨⟨draft, left⟩, hrecord, hok⟩ := bind_eq_ok_iff.1 hok
  cases hok
  refine And.imp_left textsWithin_getD (bounded_readRecord
    (fun draft : NodeDraft => ∀ values ∈ draft.values, TextsWithin limit values) ?_ _ (by simp)
    cs draft rest hcs hrecord)
  simp only [List.forall_mem_cons, List.not_mem_nil, false_imp_iff, implies_true, and_true]
  refine ⟨?_, ?_, ?_⟩
  · exact RecordField.keeps_required bounded_readText fun _ _ hdraft _ => hdraft
  · exact RecordField.keeps_required bounded_readText fun _ _ hdraft _ => hdraft
  · refine RecordField.keeps_optional bounded_readData ?_
    rintro _ values - hvalues _ ⟨⟩
    exact hvalues

theorem bounded_readEdge : Bounded limit (fun _ => True) readEdge := by
  intro cs edge rest hcs hok
  obtain ⟨⟨draft, left⟩, hrecord, hok⟩ := bind_eq_ok_iff.1 hok
  cases hok
  refine bounded_readRecord (fun _ : EdgeDraft => True) ?_ _ trivial cs draft rest hcs hrecord
  simp only [List.forall_mem_cons, List.not_mem_nil, false_imp_iff, implies_true, and_true]
  refine ⟨?_, ?_, ?_, ?_, ?_⟩
  · exact RecordField.keeps_optional bounded_readText fun _ _ _ _ => trivial
  · exact RecordField.keeps_required bounded_readText fun _ _ _ _ => trivial
  · exact RecordField.keeps_required bounded_readText fun _ _ _ _ => trivial
  · exact RecordField.keeps_required bounded_readText fun _ _ _ _ => trivial
  · exact RecordField.keeps_optional bounded_readText fun _ _ _ _ => trivial

/-- The texts in the forms of a document are no longer than the document. -/
theorem bounded_readDocument : Bounded limit
    (fun canvas => ∀ node ∈ canvas.nodes, TextsWithin limit node.values) readDocument := by
  intro cs canvas rest hcs hok
  obtain ⟨⟨draft, left⟩, hrecord, hok⟩ := bind_eq_ok_iff.1 hok
  cases hok
  refine And.imp_left ?_ (bounded_readRecord (fun draft : Draft =>
    ∀ nodes ∈ draft.nodes, ∀ node ∈ nodes, TextsWithin limit node.values) ?_ _ (by simp)
    cs draft rest hcs hrecord)
  · intro hnodes
    cases hread : draft.nodes with
    | none => simp
    | some nodes => exact hnodes nodes hread
  · simp only [List.forall_mem_cons, List.not_mem_nil, false_imp_iff, implies_true, and_true]
    refine ⟨?_, ?_⟩
    · refine RecordField.keeps_required (bounded_readList bounded_readNode) ?_
      rintro _ nodes - hnodes _ ⟨⟩
      exact hnodes
    · exact RecordField.keeps_optional (bounded_readList bounded_readEdge) fun _ _ hdraft _ => hdraft

/-- No text that is entered for a parameter is longer than the text of the whole document. -/
theorem textsWithin_of_ofText {text : String} {canvas : Canvas} (hok : ofText text = .ok canvas) :
    ∀ node ∈ canvas.nodes, TextsWithin text.utf8ByteSize node.values := by
  obtain ⟨⟨found, rest⟩, hread, hok⟩ := bind_eq_ok_iff.1 hok
  have hsize : size text.toList = text.utf8ByteSize := by
    rw [← Json.utf8ByteSize_ofList, String.ofList_toList]
  dsimp only at hok
  split_ifs at hok
  cases hok
  exact (bounded_readDocument text.toList canvas rest (Nat.le_of_eq hsize) hread).1

/-- What is entered as a value can be written, if its text is short enough. -/
theorem writable_of_enteredAs {json : Json} {value : Value} (hentered : json.EnteredAs value)
    (hsize : json.textSize < 2 ^ 64) : value.Writable := by
  cases hentered with
  | string s => exact hsize
  | boolean b => trivial
  | integer _ => trivial
  | binary x => trivial

/-- The lengths of all texts in an imported graph are numbers of 64 bits if that of the document
    is. -/
theorem writable_of_ofText {text : String} {canvas : Canvas} {imported : Imported}
    (htext : text.utf8ByteSize < 2 ^ 64) (hcanvas : ofText text = .ok canvas)
    (hcopies : Copies canvas.nodes imported) : imported.graph.Writable := by
  rintro ⟨id, block⟩ hblock ⟨parameter, value⟩ hvalue
  have hrel := hcopies.blocks id
  rw [Table.mem_entries_iff.1 hblock] at hrel
  cases hnode : canvas.nodes[id.number.toNat]? with
  | none => simp [hnode] at hrel
  | some node =>
    rw [hnode, Option.rel_some_some] at hrel
    obtain ⟨json, hentry, hentered⟩ :=
      hrel.values.nothingElse parameter value (Table.mem_entries_iff.1 hvalue)
    have hle := textsWithin_of_ofText hcanvas node (List.mem_of_getElem? hnode) parameter.name json
      (Table.mem_entries_iff.1 hentry)
    exact writable_of_enteredAs hentered (Nat.lt_of_le_of_lt hle htext)

end CommandBlocks.Canvas
