import CommandBlocks.Proofs.Graph.Faults
import CommandBlocks.Proofs.Program.Contents
import CommandBlocks.Proofs.Program.Simulation

namespace CommandBlocks

variable {options options' : Options} {id : BlockId} {block : Block}

/-- Every required input of a block has a value that is set. -/
def Block.HoldsRequired (block : Block) : Prop :=
  ∀ input ∈ block.kind.inputs, input.isRequired = true →
    ∃ value ∈ block.values.get? input.parameter, value.isUnset = false

instance (block : Block) : Decidable block.HoldsRequired :=
  inferInstanceAs (Decidable (∀ input ∈ block.kind.inputs, input.isRequired = true →
    ∃ value ∈ block.values.get? input.parameter, value.isUnset = false))

/-- A value is made from the one that was entered for an input of some type when numbers are read:
    it is the number that a text or a truth value entered for a number stands for, and the value as
    it was entered in every other case. -/
def Value.IsReadFrom (read entered : Value) (type : ValueType) : Prop :=
  match type, entered with
  | .number, .text s => ∃ x, (text s).number? = some x ∧ read = .number x
  | .number, .boolean b => ∃ x, (boolean b).number? = some x ∧ read = .number x
  | _, _ => read = entered

/-- A field holds the value that was entered for an input of a block, and another field for that
    input holds the value that is made of it when numbers are read. -/
def Block.IsReadField (block : Block) (read verbatim : Parameter × Value) : Prop :=
  block.values.get? verbatim.1 = some verbatim.2 ∧
    ∃ input ∈ block.kind.inputs, input.parameter = verbatim.1 ∧ read.1 = verbatim.1 ∧
      read.2.IsReadFrom verbatim.2 input.type

/-- With inputs required, a block also needs a value for each required input. -/
theorem Block.resolves_requireInputs_iff {readNumbers : Bool} {input : Input} :
    block.Resolves { requireInputs := true, readNumbers } input ↔
      block.Resolves { requireInputs := false, readNumbers } input ∧ (input.isRequired = true →
        ∃ value ∈ block.values.get? input.parameter, value.isUnset = false) := by
  have hresolved : Input.resolved? { requireInputs := true, readNumbers } =
      Input.resolved? { requireInputs := false, readNumbers } := rfl
  have hset : ∀ value, (block.values.get? input.parameter).filter (!·.isUnset) = some value ↔
      block.values.get? input.parameter = some value ∧ value.isUnset = false := by
    simp [Option.filter_eq_some_iff]
  unfold Block.Resolves
  simp only [Option.mem_def, ← hset, hresolved]
  cases (block.values.get? input.parameter).filter (!·.isUnset) with
  | none => simp
  | some value => simp

/-- Requiring inputs refuses the blocks that lack one, and changes nothing for the others. -/
theorem Block.fields_requireInputs_iff {readNumbers : Bool} {fields : List (Parameter × Value)} :
    block.fields { requireInputs := true, readNumbers } id = .ok fields ↔
      block.fields { requireInputs := false, readNumbers } id = .ok fields ∧
        block.HoldsRequired := by
  have hresolved : block.resolved? { requireInputs := true, readNumbers } =
      block.resolved? { requireInputs := false, readNumbers } := rfl
  simp only [Block.fields_eq_ok_iff, Block.resolves_requireInputs_iff, hresolved, forall_and,
    Block.HoldsRequired]
  tauto

/-- A value that can be read as its input asks is kept as it was entered when numbers are not
    read. -/
theorem Input.resolved?_verbatim {requireInputs : Bool} {input : Input} {value read : Value}
    (hresolved : input.resolved? { requireInputs, readNumbers := true } value = some read) :
    input.resolved? { requireInputs, readNumbers := false } value = some value ∧
      read.IsReadFrom value input.type := by
  unfold Input.resolved? at hresolved ⊢
  simp only [Bool.false_eq_true, and_false, if_false, and_true] at hresolved ⊢
  unfold Value.IsReadFrom
  cases htype : input.type with
  | number =>
    rw [htype, if_pos rfl, Option.map_eq_some_iff] at hresolved
    obtain ⟨x, hx, rfl⟩ := hresolved
    cases value with
    | number y =>
      rw [Value.number?, Option.filter_eq_some_iff] at hx
      obtain ⟨⟨⟩, hfinite⟩ := hx
      exact ⟨if_pos hfinite, rfl⟩
    | text s => exact ⟨rfl, x, hx, rfl⟩
    | boolean b => exact ⟨rfl, x, hx, rfl⟩
  | text | boolean =>
    simp only [htype, reduceCtorEq, if_false] at hresolved
    cases value with
    | number y =>
      obtain ⟨hfinite, heq⟩ := Option.ite_none_right_eq_some.1 hresolved
      exact ⟨if_pos hfinite, (Option.some.inj heq).symm⟩
    | text s => exact ⟨rfl, (Option.some.inj hresolved).symm⟩
    | boolean b => exact ⟨rfl, (Option.some.inj hresolved).symm⟩

/-- An input that is not at fault when numbers are read is not at fault when they are not. Its field
    then holds the value as it was entered. -/
private theorem Block.resolves_verbatim {requireInputs : Bool} {input : Input}
    (hmem : input ∈ block.kind.inputs)
    (hresolves : block.Resolves { requireInputs, readNumbers := true } input) :
    block.Resolves { requireInputs, readNumbers := false } input ∧
      Option.Rel block.IsReadField
        ((block.resolved? { requireInputs, readNumbers := true } input).map
          fun v => (input.parameter, v))
        ((block.resolved? { requireInputs, readNumbers := false } input).map
          fun v => (input.parameter, v)) := by
  unfold Block.Resolves at hresolves ⊢
  unfold Block.resolved?
  cases hvalue : (block.values.get? input.parameter).filter (!·.isUnset) with
  | none =>
    simp only [hvalue] at hresolves
    exact ⟨hresolves, .none⟩
  | some value =>
    simp only [hvalue] at hresolves
    obtain ⟨read, hread⟩ := Option.isSome_iff_exists.1 hresolves
    obtain ⟨hverbatim, hreads⟩ := Input.resolved?_verbatim hread
    have hstored := (Option.filter_eq_some_iff.1 hvalue).1
    simp only [Option.bind_some, hread, hverbatim, Option.map_some]
    exact ⟨rfl, .some ⟨hstored, input, hmem, rfl, rfl, hreads⟩⟩

/-- A block that has fields when numbers are read has fields when they are not, for the same inputs
    and with the values as they were entered. -/
theorem Block.exists_fields_verbatim {requireInputs : Bool} {fields : List (Parameter × Value)}
    (hfields : block.fields { requireInputs, readNumbers := true } id = .ok fields) :
    ∃ verbatim, block.fields { requireInputs, readNumbers := false } id = .ok verbatim ∧
      List.Forall₂ block.IsReadField fields verbatim := by
  obtain ⟨hresolves, rfl⟩ := Block.fields_eq_ok_iff.1 hfields
  have hinput := fun input hmem => Block.resolves_verbatim hmem (hresolves input hmem)
  refine ⟨_, Block.fields_eq_ok_iff.2 ⟨fun input hmem => (hinput input hmem).1, rfl⟩, ?_⟩
  have hsame : List.Forall₂ (fun input other => input = other ∧ input ∈ block.kind.inputs)
      block.kind.inputs block.kind.inputs := List.forall₂_same.2 fun _ hmem => ⟨rfl, hmem⟩
  refine List.rel_filterMap ?_ hsame
  rintro input _ ⟨rfl, hmem⟩
  exact (hinput input hmem).2

namespace Graph

variable {g : Graph} {related : Block → List (Parameter × Value) → List (Parameter × Value) → Prop}

/-- Two statements are statements of one block of a graph, with fields that are related; and the
    statements nested in them are too, one by one. -/
inductive Alike (g : Graph)
    (related : Block → List (Parameter × Value) → List (Parameter × Value) → Prop) :
    Statement → Statement → Prop
  | mk {id : BlockId} {block : Block} {fields fields' : List (Parameter × Value)}
    {body body' : Option (List Statement)} (hget : g.blocks.get? id = some block)
    (hfields : related block fields fields')
    (hbody : Option.Rel (List.Forall₂ (g.Alike related)) body body') :
    Alike g related (.mk block.kind fields body) (.mk block.kind fields' body')

/-- When every block that has fields under some options has related fields under other ones, a graph
    that compiles under the former compiles under the latter, to statements that are alike. -/
theorem exists_compile_alike (hg : g.WellFormed)
    (hfields : ∀ id block fields, g.blocks.get? id = some block →
      block.fields options id = .ok fields →
        ∃ fields', block.fields options' id = .ok fields' ∧ related block fields fields')
    {program : Program} (hcompile : g.compile options = .ok program) :
    ∃ program', g.compile options' = .ok program' ∧
      List.Forall₂ (g.Alike related) program program' := by
  have hshaped := hg.shapeFault?_eq_none_iff.1 (shapeFault?_eq_none_of_compile hcompile)
  refine exists_compile_related hg hg hshaped rfl rfl (fun id block fields hget hok => ?_) hcompile
  obtain ⟨fields', hok', hrelated⟩ := hfields id block fields hget hok
  exact ⟨block, fields', hget, hok', fun _ _ hbodies => .mk hget hrelated hbodies⟩

/-- When the blocks that have fields under some options have the same under other ones, so have the
    programs. -/
theorem compile_eq_ok_of_fields (hg : g.WellFormed)
    (hfields : ∀ id block fields, g.blocks.get? id = some block →
      block.fields options id = .ok fields → block.fields options' id = .ok fields)
    {program : Program} (hcompile : g.compile options = .ok program) :
    g.compile options' = .ok program := by
  have hshaped := hg.shapeFault?_eq_none_iff.1 (shapeFault?_eq_none_of_compile hcompile)
  have hsimulated : g.SimulatedBy g options options' (· = ·) := by
    intro id block fields hget hok
    refine ⟨block, fields, hget, hfields id block fields hget hok, fun body body' hbodies => ?_⟩
    rw [List.forall₂_eq_eq_eq] at hbodies
    cases hbodies with
    | some hbody => rw [hbody]
    | none => rfl
  obtain ⟨program', hcompile', hsame⟩ :=
    exists_compile_related hg hg hshaped rfl rfl hsimulated hcompile
  rw [List.forall₂_eq_eq_eq] at hsame
  rw [hsame, hcompile']

/-- Requiring inputs leaves the programs of those graphs whose blocks hold every required input. -/
theorem compile_requireInputs_iff (hg : g.WellFormed) {readNumbers : Bool} {program : Program} :
    g.compile { requireInputs := true, readNumbers } = .ok program ↔
      g.compile { requireInputs := false, readNumbers } = .ok program ∧
        ∀ id block, g.blocks.get? id = some block → block.HoldsRequired := by
  constructor
  · intro hcompile
    refine ⟨compile_eq_ok_of_fields hg ?_ hcompile, fun id block hget => ?_⟩
    · exact fun id block fields _ hok => (Block.fields_requireInputs_iff.1 hok).1
    · obtain ⟨fields, hok⟩ := hg.exists_fields_of_compile hcompile hget
      exact (Block.fields_requireInputs_iff.1 hok).2
  · rintro ⟨hcompile, hholds⟩
    refine compile_eq_ok_of_fields hg ?_ hcompile
    exact fun id block fields hget hok =>
      Block.fields_requireInputs_iff.2 ⟨hok, hholds id block hget⟩

/-- What the options change. Inputs are required: exactly those programs are left for which every
    required input of every block is set. Numbers are read: whatever compiles then also compiles
    without, to the same statements but for number inputs entered as texts or truth values, which
    are kept as they were entered in the one program and are the numbers they stand for in the
    other. Faults of the shape are the same under all options. -/
theorem compile_options (hg : g.WellFormed) :
    (∀ readNumbers program, g.compile { requireInputs := true, readNumbers } = .ok program ↔
      g.compile { requireInputs := false, readNumbers } = .ok program ∧
        ∀ id block, g.blocks.get? id = some block → block.HoldsRequired) ∧
    (∀ requireInputs program, g.compile { requireInputs, readNumbers := true } = .ok program →
      ∃ verbatim, g.compile { requireInputs, readNumbers := false } = .ok verbatim ∧
        List.Forall₂ (g.Alike fun block => List.Forall₂ block.IsReadField) program verbatim) ∧
    ∀ options options' fault, g.compile options = .error (.shape fault) ↔
      g.compile options' = .error (.shape fault) := by
  refine ⟨fun _ _ => compile_requireInputs_iff hg, fun _ _ hcompile => ?_, fun _ _ _ => ?_⟩
  · exact exists_compile_alike hg (fun _ _ _ _ hok => Block.exists_fields_verbatim hok) hcompile
  · rw [hg.compile_eq_shape_iff, hg.compile_eq_shape_iff]

/-- A loop whose count was entered as a text, and in it a pause for as long as a truth value says,
    with a picture taken after it. -/
def timedLoop : Graph where
  blocks := .ofList [(⟨0⟩, ⟨.repeatTimes, .ofList [(.count, .text " 3 ")], 1⟩),
    (⟨1⟩, ⟨.waitSeconds, .ofList [(.duration, .boolean true)], 0⟩),
    (⟨2⟩, { kind := .captureImage })]
  links := .ofList [(⟨0⟩, ⟨⟨0⟩, .child, ⟨1⟩⟩), (⟨1⟩, ⟨⟨1⟩, .next, ⟨2⟩⟩)]
  nextBlock := ⟨3⟩
  nextLink := ⟨2⟩

theorem compile_timedLoop : timedLoop.WellFormed ∧ ∃ program,
    timedLoop.compile ⟨true, true⟩ = .ok program ∧
    List.Forall₂ (timedLoop.Alike fun block => List.Forall₂ block.IsReadField) program
      [.mk .repeatTimes [(.count, .text " 3 ")] (some
        [.mk .waitSeconds [(.duration, .boolean true)] none, .mk .captureImage [] none])] := by
  have hg : timedLoop.WellFormed := ⟨by decide, by decide⟩
  have hshaped : timedLoop.Shaped := hg.shapeFault?_eq_none_iff.1 (by cbv)
  have hcontent : ∀ id ∈ timedLoop.blocks.keys,
      (timedLoop.content? ⟨false, true⟩ id).isSome = true := by decide
  have hholds : ∀ x ∈ timedLoop.blocks.entries, x.2.HoldsRequired := by decide
  obtain ⟨hrequire, hread, -⟩ := compile_options hg
  obtain ⟨program, hcompile⟩ :=
    hg.exists_compile_iff.2 ⟨hshaped, fun id hid => hcontent id (Table.mem_keys.2 hid)⟩
  have hstrict := (hrequire true program).2
    ⟨hcompile, fun _ _ hget => hholds _ (Table.mem_entries_iff.2 hget)⟩
  obtain ⟨verbatim, hverbatim, halike⟩ := hread true program hstrict
  have hcomputed : timedLoop.compile ⟨true, false⟩ = .ok
      [.mk .repeatTimes [(.count, .text " 3 ")] (some
        [.mk .waitSeconds [(.duration, .boolean true)] none, .mk .captureImage [] none])] := by
    cbv
  obtain rfl := Except.ok.inj (hverbatim.symm.trans hcomputed)
  exact ⟨hg, program, hstrict, halike⟩

end Graph

end CommandBlocks
