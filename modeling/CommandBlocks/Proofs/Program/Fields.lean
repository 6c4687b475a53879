import CommandBlocks.Compilation
import CommandBlocks.Proofs.Results
import Mathlib.Tactic.SplitIfs

namespace CommandBlocks

/-- The fault with the block at fault under another identifier. -/
def InputFault.rename (block : BlockId → BlockId) : InputFault → InputFault
  | missing id parameter => missing (block id) parameter
  | noNumber id parameter found => noNumber (block id) parameter found

/-- The value that a program gives to an input from the value entered for it, whatever the block. -/
def Input.resolved? (options : Options) (input : Input) (value : Value) : Option Value :=
  if input.type = .number ∧ options.readNumbers then value.number?.map .number
  else match value with
    | .number x => if x.isFinite then some (.number x) else none
    | v => some v

/-- The value that a program gives to an input of a block, if the input is set and not at fault. -/
def Block.resolved? (options : Options) (block : Block) (input : Input) : Option Value :=
  ((block.values.get? input.parameter).filter (!·.isUnset)).bind (input.resolved? options)

/-- The value of a parameter of a block, if it counts as entered. -/
def Block.entered? (block : Block) (parameter : Parameter) : Option Value :=
  (block.values.get? parameter).filter (!·.isUnset)

/-- An input of a block is not at fault: its value can be resolved if it is set, and it need not be
    set otherwise. -/
def Block.Resolves (options : Options) (block : Block) (input : Input) : Prop :=
  match (block.values.get? input.parameter).filter (!·.isUnset) with
  | some value => (input.resolved? options value).isSome = true
  | none => ¬ (input.isRequired = true ∧ options.requireInputs = true)

variable {options : Options} {id : BlockId} {old new : Block}

/-- A value becomes what its input makes of it, or it is reported to be no number. -/
theorem resolveValue_eq (options : Options) (id : BlockId) (input : Input) (value : Value) :
    resolveValue options id input value =
      match input.resolved? options value with
      | some v => .ok v
      | none => .error (.noNumber id input.parameter value.inMessage) := by
  unfold resolveValue Input.resolved?
  by_cases hread : input.type = .number ∧ options.readNumbers
  · simp only [if_pos hread]
    cases value with
    | number x => cases hx : x.isFinite <;> simp [Value.number?, Option.filter, hx]
    | text s => cases (Value.text s).number? <;> rfl
    | boolean b => cases (Value.boolean b).number? <;> rfl
  · simp only [if_neg hread]
    cases value with
    | number x => cases hx : x.isFinite <;> simp [hx]
    | text s => rfl
    | boolean b => rfl

/-- Numbers in programs are finite. -/
theorem Input.isFinite_of_resolved? {input : Input} {value : Value} {x : Binary64}
    (hresolved : input.resolved? options value = some (.number x)) : x.isFinite = true := by
  unfold Input.resolved? at hresolved
  split_ifs at hresolved with hread
  · obtain ⟨y, hy, heq⟩ := Option.map_eq_some_iff.1 hresolved
    obtain rfl := Value.number.inj heq
    exact (Option.filter_eq_some_iff.1 hy).2
  · cases value with
    | number y =>
      rw [Option.ite_none_right_eq_some] at hresolved
      obtain ⟨hfinite, heq⟩ := hresolved
      cases heq
      exact hfinite
    | text s => cases hresolved
    | boolean b => cases hresolved

/-- An input gives a field or none, if nothing is wrong with it. -/
private theorem resolveInput_eq_ok_iff {block : Block} {input : Input}
    {field? : Option (Parameter × Value)} :
    resolveInput options id block input = .ok field? ↔ block.Resolves options input ∧
      field? = (block.resolved? options input).map fun v => (input.parameter, v) := by
  unfold resolveInput Block.Resolves Block.resolved?
  cases (block.values.get? input.parameter).filter (!·.isUnset) with
  | none =>
    by_cases hrequired : input.isRequired = true ∧ options.requireInputs = true
    · simp only [if_pos hrequired]
      exact ⟨nofun, fun hboth => absurd hrequired hboth.1⟩
    · simp only [if_neg hrequired]
      exact ⟨fun heq => ⟨hrequired, (Except.ok.inj heq).symm⟩, fun hboth => congrArg _ hboth.2.symm⟩
  | some value =>
    simp only [resolveValue_eq, bind_eq_ok_iff, Option.bind_some]
    cases input.resolved? options value with
    | none => simp
    | some v => simp [pure, Except.pure, eq_comm]

/-- A block has fields exactly if none of its inputs is at fault. They are then the values of its
    set inputs, in the order of the inputs. -/
theorem Block.fields_eq_ok_iff {block : Block} {fields : List (Parameter × Value)} :
    block.fields options id = .ok fields ↔
      (∀ input ∈ block.kind.inputs, block.Resolves options input) ∧
        fields = block.kind.inputs.filterMap fun input =>
          (block.resolved? options input).map fun v => (input.parameter, v) := by
  rw [Block.fields]
  generalize block.kind.inputs = inputs
  induction inputs generalizing fields with
  | nil => simp [resolveInputs, eq_comm]
  | cons input inputs ih =>
    simp only [resolveInputs, bind_eq_ok_iff, resolveInput_eq_ok_iff, ih, List.forall_mem_cons,
      List.filterMap_cons, pure, Except.pure, Except.ok.injEq]
    constructor
    · rintro ⟨_, ⟨hinput, rfl⟩, _, ⟨hinputs, rfl⟩, rfl⟩
      refine ⟨⟨hinput, hinputs⟩, ?_⟩
      cases block.resolved? options input <;> rfl
    · rintro ⟨⟨hinput, hinputs⟩, rfl⟩
      refine ⟨_, ⟨hinput, rfl⟩, _, ⟨hinputs, rfl⟩, ?_⟩
      cases block.resolved? options input <;> rfl

/-- The identifier matters only to the fault of a value. -/
private theorem resolveValue_rename (rename : BlockId → BlockId) (input : Input) (value : Value) :
    resolveValue options (rename id) input value =
      (resolveValue options id input value).mapError (·.rename rename) := by
  rw [resolveValue_eq, resolveValue_eq]
  cases input.resolved? options value <;> rfl

/-- The identifier matters only to the fault of an input. -/
private theorem resolveInput_rename (rename : BlockId → BlockId)
    (hentered : ∀ parameter, new.entered? parameter = old.entered? parameter) (input : Input) :
    resolveInput options (rename id) new input =
      (resolveInput options id old input).mapError (·.rename rename) := by
  have hinput : (new.values.get? input.parameter).filter (!·.isUnset) =
      (old.values.get? input.parameter).filter (!·.isUnset) := hentered input.parameter
  unfold resolveInput
  rw [hinput]
  cases (old.values.get? input.parameter).filter (!·.isUnset) with
  | none =>
    by_cases hrequired : input.isRequired ∧ options.requireInputs
    · simp only [if_pos hrequired]
      rfl
    · simp only [if_neg hrequired]
      rfl
  | some value =>
    simp only [resolveValue_rename, mapError_bind]
    rfl

/-- The identifier matters only to the fault among inputs. -/
private theorem resolveInputs_rename (rename : BlockId → BlockId)
    (hentered : ∀ parameter, new.entered? parameter = old.entered? parameter)
    (inputs : List Input) :
    resolveInputs options (rename id) new inputs =
      (resolveInputs options id old inputs).mapError (·.rename rename) := by
  induction inputs with
  | nil => rfl
  | cons input inputs ih =>
    simp only [resolveInputs, resolveInput_rename rename hentered, ih, mapError_bind]
    rfl

theorem Block.entered?_congr (hvalues : new.values = old.values) (parameter : Parameter) :
    new.entered? parameter = old.entered? parameter := by
  rw [Block.entered?, Block.entered?, hvalues]

/-- A block of the same kind for which the same is entered has the same fields, or the same fault
    under its own identifier. -/
theorem Block.fields_rename (rename : BlockId → BlockId) (hkind : new.kind = old.kind)
    (hentered : ∀ parameter, new.entered? parameter = old.entered? parameter) :
    new.fields options (rename id) = (old.fields options id).mapError (·.rename rename) := by
  rw [Block.fields, Block.fields, hkind, resolveInputs_rename rename hentered]

/-- A fault in the fields of a block names the block. -/
theorem Block.block_of_fields_eq_error {block : Block} {fault : InputFault}
    (herror : block.fields options id = .error fault) : fault.block = id := by
  have hrename : block.fields options id =
      (block.fields options id).mapError (·.rename fun _ => id) :=
    Block.fields_rename (fun _ => id) rfl fun _ => rfl
  rw [herror] at hrename
  have hsame : fault = fault.rename fun _ => id := Except.error.inj hrename
  rw [hsame]
  cases fault <;> rfl

/-- Blocks of one kind with the same values entered have the same fields. -/
theorem Block.fields_congr (hkind : new.kind = old.kind)
    (hentered : ∀ parameter, new.entered? parameter = old.entered? parameter) :
    new.fields options id = old.fields options id := by
  rw [Block.fields_rename (fun id => id) hkind hentered]
  cases old.fields options id with
  | error fault => cases fault <;> rfl
  | ok fields => rfl

end CommandBlocks
