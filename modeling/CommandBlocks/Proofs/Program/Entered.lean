import CommandBlocks.Proofs.Graph.Refusals
import CommandBlocks.Proofs.Program.Outline

namespace CommandBlocks

/-- The values that count as entered. -/
def enteredValues (values : Table Parameter Value) : Table Parameter Value :=
  values.filter fun _ value => !value.isUnset

section Values

variable {values values' : Table Parameter Value}

/-- Values count as the same if the same parameters have the same values that are not blank. -/
theorem enteredValues_eq_iff :
    enteredValues values = enteredValues values' ↔ ∀ parameter,
      (values.get? parameter).filter (!·.isUnset) =
        (values'.get? parameter).filter (!·.isUnset) := by
  constructor
  · intro hsame parameter
    have hget := congrArg (·.get? parameter) hsame
    simpa only [enteredValues, Table.get?_filter] using hget
  · intro hsame
    apply Table.eq_of_get?
    intro parameter
    rw [enteredValues, enteredValues, Table.get?_filter, Table.get?_filter, hsame]

/-- Leaving out what does not count as entered leaves nothing out the second time. -/
theorem enteredValues_idem (values : Table Parameter Value) :
    enteredValues (enteredValues values) = enteredValues values := by
  rw [enteredValues_eq_iff]
  intro parameter
  rw [enteredValues, Table.get?_filter, Option.filter_filter]
  simp only [Bool.and_self]

/-- Values that count as the same still do when the same value is entered. -/
theorem enteredValues_insert_congr (hsame : enteredValues values = enteredValues values')
    (parameter : Parameter) (value : Value) :
    enteredValues (values.insert parameter value) =
      enteredValues (values'.insert parameter value) := by
  rw [enteredValues_eq_iff] at hsame ⊢
  intro other
  rw [Table.get?_insert, Table.get?_insert]
  by_cases hother : other = parameter
  · rw [if_pos hother, if_pos hother]
  · rw [if_neg hother, if_neg hother]
    exact hsame other

/-- What is not set yet can be set to blanks, to no effect. -/
theorem enteredValues_insert_of_isUnset {parameter : Parameter} {value : Value}
    (hfresh : values.get? parameter = none) (hunset : value.isUnset = true) :
    enteredValues (values.insert parameter value) = enteredValues values := by
  rw [enteredValues_eq_iff]
  intro other
  rw [Table.get?_insert]
  by_cases hother : other = parameter
  · rw [if_pos hother, hother, hfresh, Option.filter_some, hunset]
    rfl
  · rw [if_neg hother]

/-- Clearing a blank value does not count. -/
theorem enteredValues_erase_of_isUnset {parameter : Parameter} {value : Value}
    (hget : values.get? parameter = some value) (hunset : value.isUnset = true) :
    enteredValues (values.erase parameter) = enteredValues values := by
  rw [enteredValues_eq_iff]
  intro other
  rw [Table.get?_erase]
  by_cases hother : other = parameter
  · rw [if_pos hother, hother, hget, Option.filter_some, hunset]
    rfl
  · rw [if_neg hother]

end Values

/-- A block without the values that count as not entered. -/
def Block.trimmed (block : Block) : Block := { block with values := enteredValues block.values }

/-- Trimming a block leaves the values that count as entered. -/
theorem Block.entered?_trimmed (block : Block) (parameter : Parameter) :
    block.trimmed.entered? parameter = block.entered? parameter :=
  enteredValues_eq_iff.1 (enteredValues_idem block.values) parameter

section Fields

variable {options : Options} {id : BlockId} {block : Block}

/-- A field of a block's statement comes of a value that is entered. -/
theorem Block.exists_entered?_of_mem_fields {fields : List (Parameter × Value)}
    (hfields : block.fields options id = .ok fields) {parameter : Parameter} {value : Value}
    (hmem : (parameter, value) ∈ fields) : ∃ entered, block.entered? parameter = some entered := by
  rw [(fields_eq_ok_iff.1 hfields).2, List.mem_filterMap] at hmem
  obtain ⟨input, -, hfield⟩ := hmem
  obtain ⟨resolved, hresolved, hpair⟩ := Option.map_eq_some_iff.1 hfield
  obtain ⟨rfl, -⟩ := Prod.mk.inj hpair
  obtain ⟨entered, hentered, -⟩ := Option.bind_eq_some_iff.1 hresolved
  exact ⟨entered, hentered⟩

/-- A value that is no number is reported as it was entered. -/
private theorem entered?_of_resolveInput {input : Input} {other : BlockId} {parameter : Parameter}
    {found : String}
    (herror : resolveInput options id block input = .error (.noNumber other parameter found)) :
    ∃ entered, block.entered? parameter = some entered ∧ entered.inMessage = found := by
  unfold resolveInput at herror
  split at herror
  next value hentered =>
    rw [resolveValue_eq] at herror
    cases hresolved : input.resolved? options value with
    | some resolved =>
      simp only [hresolved] at herror
      cases herror
    | none =>
      simp only [hresolved] at herror
      cases herror
      exact ⟨value, hentered, rfl⟩
  next =>
    split at herror
    · cases herror
    · cases herror

/-- What is said to be no number is a value that is entered. -/
theorem Block.exists_entered?_of_noNumber {other : BlockId} {parameter : Parameter}
    {found : String} (herror : block.fields options id = .error (.noNumber other parameter found)) :
    ∃ entered, block.entered? parameter = some entered ∧ entered.inMessage = found := by
  rw [fields] at herror
  generalize block.kind.inputs = inputs at herror
  induction inputs with
  | nil => cases herror
  | cons input inputs ih =>
    simp only [resolveInputs, bind_eq_error_iff] at herror
    obtain hinput | ⟨_, -, hinputs | ⟨_, -, hdone⟩⟩ := herror
    · exact entered?_of_resolveInput hinput
    · exact ih hinputs
    · cases hdone

end Fields

namespace Graph

variable {g h : Graph} {options options' : Options}

/-- A fault in a value is reported for the fields of some block. -/
private theorem exists_of_build_eq_input {fresh pending : List BlockId} {complete : List Statement}
    {opened : List OpenStatement} {fault : InputFault}
    (herror : g.build options fresh pending complete opened = .error (.input fault)) :
    ∃ id block, g.blocks.get? id = some block ∧ block.fields options id = .error fault := by
  fun_induction build g options fresh pending complete opened with
  | case1 _ _ _ _ _ _ ih => exact ih herror
  | case2 fresh complete id pending opened block hget _ found hfields =>
    cases herror
    exact ⟨id, block, hget, hfields⟩
  | case3 _ _ _ _ _ _ _ _ _ _ ih => exact ih herror
  | case4 => cases herror
  | case5 => cases herror
  | case6 _ _ _ _ ih => exact ih herror

/-- A fault in a value is found at the fields of its block, whatever the graph. -/
theorem exists_of_compile_eq_input {fault : InputFault}
    (herror : g.compile options = .error (.input fault)) :
    ∃ block, g.blocks.get? fault.block = some block ∧
      block.fields options fault.block = .error fault := by
  unfold compile at herror
  split at herror
  · cases herror
  · obtain ⟨id, block, hget, hfields⟩ := exists_of_build_eq_input herror
    obtain rfl := Block.block_of_fields_eq_error hfields
    exact ⟨block, hget, hfields⟩

/-- The graph without the values that count as not entered. -/
def trimmed (g : Graph) : Graph := { g with blocks := g.blocks.map fun _ block => block.trimmed }

/-- Programs are put together from the links of a graph and from the kinds and fields of its
    blocks. -/
theorem build_congr
    (hblocks : ∀ id, (g.blocks.get? id).map (fun block => (block.kind, block.fields options id)) =
      (h.blocks.get? id).map fun block => (block.kind, block.fields options' id))
    (hlinks : g.links = h.links) {fresh pending : List BlockId} {complete : List Statement}
    {opened : List OpenStatement} :
    g.build options fresh pending complete opened =
      h.build options' fresh pending complete opened := by
  have hchildren : h.children = g.children := by
    funext id
    rw [children, children, outgoing, outgoing, hlinks]
  have hsuccessor : h.successor? = g.successor? := by
    funext id
    rw [successor?, successor?, outgoing, outgoing, hlinks]
  have hsome : ∀ {id block}, g.blocks.get? id = some block → ∃ other,
      h.blocks.get? id = some other ∧ other.kind = block.kind ∧
        other.fields options' id = block.fields options id := by
    intro id block hget
    have hid := hblocks id
    rw [hget, Option.map_some, eq_comm, Option.map_eq_some_iff] at hid
    obtain ⟨other, hother, hsame⟩ := hid
    exact ⟨other, hother, Prod.mk.inj hsame⟩
  -- both graphs meet the same blocks in the same order
  fun_induction build g options fresh pending complete opened with
  | case1 fresh complete id pending opened hget ih =>
    have hnone := hblocks id
    rw [hget, Option.map_none, eq_comm, Option.map_eq_none_iff] at hnone
    rw [ih, eq_comm, build, hnone]
  | case2 fresh complete id pending opened block hget hfresh fault hfields =>
    obtain ⟨other, hother, -, hsame⟩ := hsome hget
    rw [build, hother]
    simp only [if_pos hfresh, hsame, hfields]
  | case3 fresh complete id pending opened block hget hfresh fields hfields ih =>
    obtain ⟨other, hother, hkind, hsame⟩ := hsome hget
    rw [ih, eq_comm, build, hother]
    simp only [if_pos hfresh, hsame, hfields, hkind, hchildren]
  | case4 fresh complete id pending opened block hget hmet =>
    obtain ⟨other, hother, -, -⟩ := hsome hget
    rw [build, hother]
    simp only [if_neg hmet]
  | case5 fresh complete => rw [build]
  | case6 fresh complete o opened ih => rw [ih, eq_comm, build, hsuccessor]

/-- Two graphs with the same links and, apart from values, the same blocks compile alike if the
    fields of their blocks are the same. -/
theorem compile_congr (hblocks : unvalued g.blocks = unvalued h.blocks)
    (hfields : ∀ id block block', g.blocks.get? id = some block → h.blocks.get? id = some block' →
      block.fields options id = block'.fields options' id)
    (hlinks : g.links = h.links) : g.compile options = h.compile options' := by
  have hcontents : ∀ id,
      (g.blocks.get? id).map (fun block => (block.kind, block.fields options id)) =
        (h.blocks.get? id).map fun block => (block.kind, block.fields options' id) := by
    intro id
    have hid := congrArg (·.get? id) hblocks
    simp only [unvalued, Table.get?_map] at hid
    cases hget : g.blocks.get? id with
    | none =>
      rw [hget, Option.map_none, eq_comm, Option.map_eq_none_iff] at hid
      rw [hid]
      rfl
    | some block =>
      rw [hget, Option.map_some, eq_comm, Option.map_eq_some_iff] at hid
      obtain ⟨block', hget', hsame⟩ := hid
      rw [Block.mk.injEq] at hsame
      rw [hget', Option.map_some, Option.map_some, hfields id block block' hget hget', hsame.1]
  have hroots : g.roots = h.roots := by
    simp only [roots, incoming, keys_eq_of_unvalued hblocks, hlinks]
  rw [compile, compile, shapeFault?_eq_of_unvalued hblocks hlinks, hroots,
    keys_eq_of_unvalued hblocks, build_congr hcontents hlinks]

theorem get?_trimmed (g : Graph) (id : BlockId) :
    g.trimmed.blocks.get? id = (g.blocks.get? id).map Block.trimmed := by
  rw [trimmed, Table.get?_map]

theorem unvalued_trimmed (g : Graph) : unvalued g.trimmed.blocks = unvalued g.blocks := by
  apply Table.eq_of_get?
  intro id
  rw [unvalued, unvalued, Table.get?_map, Table.get?_map, get?_trimmed, Option.map_map]
  rfl

/-- Values that count as not entered do not matter to compiling. -/
theorem compile_trimmed (g : Graph) (options : Options) :
    g.trimmed.compile options = g.compile options := by
  refine compile_congr (unvalued_trimmed g) (fun id new old hnew hold => ?_) rfl
  rw [get?_trimmed, hold, Option.map_some, Option.some.injEq] at hnew
  rw [← hnew]
  exact Block.fields_congr rfl (Block.entered?_trimmed old)

/-- Taking away a value that is stored cannot fail. If the value does not count as entered, nothing
    is taken away that does. -/
theorem exists_clearValue_trimmed {id : BlockId} {name : String} {value : Value}
    (hstored : (g.blocks.get? id).bind (·.valueNamed? name) = some value)
    (hunset : value.isUnset = true) :
    ∃ h, g.clearValue id name = .ok (some value, h) ∧ h.trimmed = g.trimmed := by
  obtain ⟨block, hget, hvalue⟩ := Option.bind_eq_some_iff.1 hstored
  obtain ⟨parameter, hname, hvalue⟩ := Option.bind_eq_some_iff.1 hvalue
  have hclear : g.clearValue id name = .ok (some value, { g with
      blocks := g.blocks.insert id { block with values := block.values.erase parameter } }) := by
    simp only [clearValue, hget, hname, hvalue]
  refine ⟨_, hclear, ?_⟩
  have hblock : ({ block with values := block.values.erase parameter } : Block).trimmed =
      block.trimmed :=
    congrArg (Block.mk block.kind · block.childCount) (enteredValues_erase_of_isUnset hvalue hunset)
  refine congrArg (Graph.mk · g.links g.nextBlock g.nextLink) (Table.eq_of_get? fun other => ?_)
  rw [Table.get?_map, Table.get?_map, Table.get?_insert]
  by_cases hother : other = id
  · rw [if_pos hother, hother, hget, Option.map_some, Option.map_some, hblock]
  · rw [if_neg hother]

/-- The rules for links look at no values. -/
theorem refusal?_trimmed (g : Graph) (link : Link) :
    g.trimmed.refusal? link = g.refusal? link := by
  have hends : g.trimmed.unknownEnd? link = g.unknownEnd? link := by
    simp only [unknownEnd?, trimmed, Table.contains_map]
  have hroom : g.trimmed.noRoom? link = g.noRoom? link := by
    rw [noRoom?, noRoom?, get?_trimmed]
    cases link.handle with
    | next => rfl
    | child => cases g.blocks.get? link.source <;> rfl
  rw [refusal?, refusal?, hends, hroom]
  rfl

/-- Counting goes together with leaving out values. -/
private theorem recountWhere_trimmed (blocks : Table BlockId Block) (links : Table LinkId Link)
    (p : BlockId → Bool) :
    recountWhere (blocks.map fun _ block => block.trimmed) links p =
      (recountWhere blocks links p).map fun _ block => block.trimmed := by
  apply Table.eq_of_get?
  intro id
  rw [get?_recountWhere, Table.get?_map, Table.get?_map, get?_recountWhere, Option.map_map,
    Option.map_map]
  congr 1
  funext block
  by_cases hp : p id = true
  · simp [Block.trimmed, hp]
  · simp [Block.trimmed, hp]

/-- Drawing a link goes together with leaving out values. -/
theorem drawLink_trimmed (g : Graph) (link : Link) :
    (g.drawLink link).2.trimmed = (g.trimmed.drawLink link).2 := by
  rw [drawLink_eq, drawLink_eq, trimmed, trimmed, recountWhere_trimmed]

/-- Adding a link goes together with leaving out values. -/
theorem addLink_trimmed (g : Graph) (link : Link) :
    g.trimmed.addLink link = (g.addLink link).map fun (id, h) => (id, h.trimmed) := by
  rw [addLink, addLink, refusal?_trimmed]
  cases g.refusal? link with
  | some refusal => rfl
  | none =>
    have hdrawn : g.trimmed.drawLink link = (g.nextLink, (g.drawLink link).2.trimmed) :=
      congrArg (Prod.mk g.nextLink) (drawLink_trimmed g link).symm
    exact congrArg Except.ok hdrawn

end Graph

end CommandBlocks
