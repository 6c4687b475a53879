import CommandBlocks.Proofs.Program.Fields
import CommandBlocks.Proofs.Program.Unrolling

namespace CommandBlocks

/-- A statement has fields for some inputs of its kind in palette order, with finite numbers. -/
structure Statement.Regular (statement : Statement) : Prop where
  order : (statement.fields.map (·.1)).Sublist (statement.kind.inputs.map (·.parameter))
  finite : ∀ parameter x, (parameter, .number x) ∈ statement.fields → x.isFinite = true

theorem Kind.nodup_parameters (kind : Kind) : (kind.inputs.map (·.parameter)).Nodup := by
  cases kind <;> decide

theorem Statement.Regular.nodup {statement : Statement} (hregular : statement.Regular) :
    (statement.fields.map (·.1)).Nodup :=
  hregular.order.nodup statement.kind.nodup_parameters

/-- The fields of a block make a regular statement. -/
theorem Block.regular_of_fields {options : Options} {id : BlockId} {block : Block}
    {fields : List (Parameter × Value)} (hfields : block.fields options id = .ok fields)
    (body : Option (List Statement)) : (Statement.mk block.kind fields body).Regular := by
  have heq := (Block.fields_eq_ok_iff.1 hfields).2
  constructor
  · change (fields.map (·.1)).Sublist (block.kind.inputs.map (·.parameter))
    rw [heq]
    induction block.kind.inputs with
    | nil => exact .refl _
    | cons input inputs ih =>
      rw [List.filterMap_cons]
      cases block.resolved? options input with
      | none => exact ih.cons _
      | some v => exact ih.cons_cons _
  · intro parameter x hmem
    change (parameter, Value.number x) ∈ fields at hmem
    rw [heq, List.mem_filterMap] at hmem
    obtain ⟨input, -, hresolved⟩ := hmem
    obtain ⟨v, hv, hfield⟩ := Option.map_eq_some_iff.1 hresolved
    obtain ⟨-, rfl⟩ := Prod.mk.inj hfield
    obtain ⟨value, -, hvalue⟩ := Option.bind_eq_some_iff.1 hv
    exact Input.isFinite_of_resolved? hvalue

namespace Graph

variable {g : Graph} {options : Options}

theorem regular_of_isStatementOf {id : BlockId} {statement : Statement}
    (hof : g.IsStatementOf options id statement) : statement.Regular := by
  obtain ⟨kind, fields, body⟩ := statement
  obtain ⟨block, -, hkind, hfields⟩ := hof
  obtain rfl : kind = block.kind := hkind
  exact Block.regular_of_fields hfields body

/-- Every statement of a program, at any depth, is a block's, whatever the graph. -/
theorem exists_isStatementOf_of_compile {program : Program}
    (hcompile : g.compile options = .ok program) {statement : Statement}
    (hmem : statement ∈ program.statements) : ∃ id, g.IsStatementOf options id statement := by
  unfold compile at hcompile
  split at hcompile
  · cases hcompile
  · obtain ⟨order, hunrolls, -⟩ := unrolls_of_build g.blocks.nodup_keys hcompile
    obtain ⟨hlength, hof⟩ := List.forall₂_iff_get.1 hunrolls.statements
    obtain ⟨i, hi, rfl⟩ := List.getElem_of_mem hmem
    exact ⟨order[i], hof i (by omega) hi⟩

/-- All statements of a compiled program are regular. -/
theorem regular_of_compile {program : Program} (hcompile : g.compile options = .ok program) :
    ∀ statement ∈ program.statements, statement.Regular := by
  intro statement hmem
  obtain ⟨id, hof⟩ := exists_isStatementOf_of_compile hcompile hmem
  exact regular_of_isStatementOf hof

end Graph

end CommandBlocks
