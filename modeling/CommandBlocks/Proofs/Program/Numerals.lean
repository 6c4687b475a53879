import CommandBlocks.Proofs.Numerals
import CommandBlocks.Proofs.Program.Entered
import CommandBlocks.Proofs.Program.Regular

namespace CommandBlocks

/-- A value counts as entered and stands for a number. -/
structure Value.Denotes (value : Value) (x : Binary64) : Prop where
  set : value.isUnset = false
  number : value.number? = some x

/-- A finite number stands for itself. -/
theorem Value.denotes_number {x : Binary64} (hfinite : x.isFinite = true) :
    (Value.number x).Denotes x where
  set := rfl
  number := by rw [number?, Option.filter_some, if_pos hfinite]

/-- A text that spells an integer stands for the number nearest to it. -/
theorem Value.denotes_text {s : String} {n : Int} (hspells : Spells s n) (hn : |n| < 2 ^ 63)
    (hfinite : (Binary64.ofInt n).isFinite = true) : (Value.text s).Denotes (.ofInt n) where
  set := isUnset_text hspells
  number := number?_text hspells hn hfinite

section Fields

variable {options : Options} {id : BlockId} {block new old : Block} {input : Input}
  {value other : Value} {x : Binary64}

/-- Where numbers are read, a number input shows no more than the number that its value stands
    for. -/
theorem resolveInput_of_denotes (htype : input.type = .number) (hread : options.readNumbers = true)
    (hstored : block.values.get? input.parameter = some value) (hvalue : value.Denotes x) :
    resolveInput options id block input = .ok (some (input.parameter, .number x)) := by
  have hentered : (block.values.get? input.parameter).filter (!·.isUnset) = some value := by
    rw [hstored, Option.filter_some, hvalue.set]
    rfl
  have hresolved : input.resolved? options value = some (.number x) := by
    unfold Input.resolved?
    rw [if_pos ⟨htype, hread⟩, hvalue.number]
    rfl
  rw [resolveInput, hentered]
  simp only [resolveValue_eq, hresolved]
  rfl

/-- Nothing but what becomes of its inputs shows in the fields of a block. -/
theorem Block.fields_congr_of_resolveInput (hkind : new.kind = old.kind)
    (hinputs : ∀ input ∈ old.kind.inputs,
      resolveInput options id new input = resolveInput options id old input) :
    new.fields options id = old.fields options id := by
  rw [fields, fields, hkind]
  generalize old.kind.inputs = inputs at hinputs
  induction inputs with
  | nil => rfl
  | cons input inputs ih =>
    obtain ⟨hinput, hinputs⟩ := List.forall_mem_cons.1 hinputs
    rw [resolveInputs, resolveInputs, hinput, ih hinputs]

/-- A value of a number input may be exchanged for one that stands for the same number. -/
theorem Block.fields_insert_of_denotes (hinput : input ∈ block.kind.inputs)
    (htype : input.type = .number) (hread : options.readNumbers = true)
    (hstored : block.values.get? input.parameter = some value) (hvalue : value.Denotes x)
    (hother : other.Denotes x) :
    ({ block with values := block.values.insert input.parameter other } : Block).fields options id =
      block.fields options id := by
  refine fields_congr_of_resolveInput rfl fun found hfound => ?_
  by_cases hparameter : found.parameter = input.parameter
  · -- no kind declares a parameter twice
    obtain rfl := List.inj_on_of_nodup_map block.kind.nodup_parameters hfound hinput hparameter
    rw [resolveInput_of_denotes htype hread (Table.get?_insert_self _ _ _) hother,
      resolveInput_of_denotes htype hread hstored hvalue]
  · rw [resolveInput, resolveInput, Table.get?_insert_of_ne _ _ hparameter]

end Fields

namespace Graph

variable {g : Graph} {options : Options} {id : BlockId} {block : Block}

/-- Exchanging the values of a block does not show once values are left out. -/
theorem unvalued_insert (hget : g.blocks.get? id = some block)
    (values : Table Parameter Value) :
    unvalued (g.blocks.insert id { block with values }) = unvalued g.blocks := by
  apply Table.eq_of_get?
  intro other
  rw [unvalued, unvalued, Table.get?_map, Table.get?_map, Table.get?_insert]
  by_cases hother : other = id
  · rw [if_pos hother, hother, hget]
    rfl
  · rw [if_neg hother]

/-- Entering a value for a number input does not change the result of compiling, if it stands for
    the number for which the value stands that was entered before. -/
theorem exists_setValue_of_denotes {name : String} {input : Input} {value other : Value}
    {x : Binary64} (hget : g.blocks.get? id = some block)
    (hinput : block.kind.inputNamed? name = some input) (htype : input.type = .number)
    (hread : options.readNumbers = true)
    (hstored : block.values.get? input.parameter = some value) (hvalue : value.Denotes x)
    (hother : other.Denotes x) :
    ∃ h, g.setValue id name other = .ok h ∧ h.compile options = g.compile options := by
  refine ⟨_, setValue_eq_ok_iff.2 ⟨block, input, hget, hinput, rfl⟩,
    compile_congr (unvalued_insert hget _) (fun found new old hnew hold => ?_) rfl⟩
  obtain ⟨rfl, rfl⟩ | ⟨-, hkept⟩ := Table.get?_insert_eq_some.1 hnew
  · obtain rfl := Option.some_inj.1 (hget.symm.trans hold)
    exact Block.fields_insert_of_denotes (List.mem_of_find?_eq_some hinput) htype hread hstored
      hvalue hother
  · rw [Option.some_inj.1 (hkept.symm.trans hold)]

end Graph

/-- Whole numbers below `2 ^ 63` agree with their digits, up to the last one. A floating-point
    number that is exactly an integer is shown by its decimal digits; a text of these digits,
    whatever blanks stand around them, is read as that very number; and where numbers are read,
    exchanging the one for the other in a number input of any graph leaves the result of compiling
    as it is. -/
theorem numerals_agree {n : Int} (hsmall : |n| < 2 ^ 63)
    (hexact : ∃ x : Binary64, x.isFinite = true ∧ x.toRat = n) :
    ((Binary64.ofInt n).isFinite = true ∧ (Binary64.ofInt n).toRat = n) ∧
    (∀ x : Binary64, x.isFinite = true → x.toRat = n →
      (Value.number x).display = String.ofList (numeral n)) ∧
    ∀ s : String, Value.Spells s n →
      (Value.text s).number? = some (.ofInt n) ∧
      ∀ (g : Graph) (options : Options) (id : BlockId) (block : Block) (name : String)
        (input : Input), options.readNumbers = true → g.blocks.get? id = some block →
        block.kind.inputNamed? name = some input → input.type = .number →
        (block.values.get? input.parameter = some (.number (.ofInt n)) →
          ∃ h, g.setValue id name (.text s) = .ok h ∧ h.compile options = g.compile options) ∧
        (block.values.get? input.parameter = some (.text s) →
          ∃ h, g.setValue id name (.number (.ofInt n)) = .ok h ∧
            h.compile options = g.compile options) := by
  obtain ⟨hfinite, hrat⟩ := Binary64.isFinite_toRat_ofInt hexact
  refine ⟨⟨hfinite, hrat⟩, fun x hx hn => Value.display_number hsmall hx hn, fun s hspells => ?_⟩
  have hnumber := Value.denotes_number hfinite
  have htext := Value.denotes_text hspells hsmall hfinite
  refine ⟨htext.number, fun g options id block name input hread hget hinput htype => ⟨?_, ?_⟩⟩
  · intro hstored
    exact Graph.exists_setValue_of_denotes hget hinput htype hread hstored hnumber htext
  · intro hstored
    exact Graph.exists_setValue_of_denotes hget hinput htype hread hstored htext hnumber

/-- A block that waits for so long. -/
def waitGraph (duration : Value) : Graph where
  blocks := .ofList [(⟨3⟩, { kind := .waitSeconds, values := .ofList [(.duration, duration)] })]
  nextBlock := ⟨4⟩

/-- The smallest whole number above `-2 ^ 63` that is exactly a floating-point number. -/
def lowest : Int := -9223372036854774784

/-- Its digits between an em space and a line feed. -/
def lowestText : String := "\u2003-9223372036854774784\n"

theorem numerals_agree_waitGraph : |lowest| < 2 ^ 63 ∧
    (∃ x : Binary64, x.isFinite = true ∧ x.toRat = lowest) ∧ Value.Spells lowestText lowest ∧
    (Value.text lowestText).number? = some (.ofInt lowest) ∧
    (∃ h, (waitGraph (.number (.ofInt lowest))).setValue ⟨3⟩ "duration" (.text lowestText) = .ok h ∧
      h.compile {} = (waitGraph (.number (.ofInt lowest))).compile {}) ∧
    ∃ h, (waitGraph (.text lowestText)).setValue ⟨3⟩ "duration" (.number (.ofInt lowest)) = .ok h ∧
      h.compile {} = (waitGraph (.text lowestText)).compile {} := by
  have hsmall : |lowest| < 2 ^ 63 := by decide
  have hfinite : (Binary64.ofInt lowest).isFinite = true := by decide +kernel
  have htoInt : (Binary64.ofInt lowest).toInt? = some lowest := by decide +kernel
  have hexact : ∃ x : Binary64, x.isFinite = true ∧ x.toRat = lowest :=
    ⟨_, hfinite, ((Binary64.toInt?_eq_some_iff hfinite).1 htoInt).1⟩
  have hspells : Value.Spells lowestText lowest :=
    ⟨['\u2003'], ['\n'], by decide +kernel, List.forall_mem_singleton.2 (by decide),
      List.forall_mem_singleton.2 (by decide)⟩
  obtain ⟨-, -, hagree⟩ := numerals_agree hsmall hexact
  obtain ⟨hnumber, hexchange⟩ := hagree _ hspells
  refine ⟨hsmall, hexact, hspells, hnumber, ?_, ?_⟩
  · exact (hexchange _ {} ⟨3⟩ _ "duration" ⟨.duration, .number, true⟩ rfl rfl rfl rfl).1 rfl
  · exact (hexchange _ {} ⟨3⟩ _ "duration" ⟨.duration, .number, true⟩ rfl rfl rfl rfl).2 rfl

end CommandBlocks
