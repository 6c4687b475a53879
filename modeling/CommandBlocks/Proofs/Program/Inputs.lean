import CommandBlocks.Proofs.Program.Regular

namespace CommandBlocks

variable {options : Options} {id : BlockId} {block : Block} {input : Input}

/-- What may be wrong with an input of a block. It has to be set and is not; it holds a number that
    is not finite, whatever its type; or it is set to what is to be read as a number and stands for
    none. -/
inductive Block.Faulty (options : Options) (id : BlockId) (block : Block) (input : Input) :
    InputFault → Prop where
  | missing (required : input.isRequired = true) (enforced : options.requireInputs = true)
      (unset : ∀ value, block.values.get? input.parameter = some value → value.isUnset = true) :
    Faulty options id block input (.missing id input.parameter)
  | notFinite {x : Binary64} (stored : block.values.get? input.parameter = some (.number x))
      (notFinite : x.isFinite = false) :
    Faulty options id block input (.noNumber id input.parameter (Value.number x).inMessage)
  | noNumber {value : Value} (stored : block.values.get? input.parameter = some value)
      (set : value.isUnset = false) (type : input.type = .number)
      (read : options.readNumbers = true) (noNumber : value.number? = none) :
    Faulty options id block input (.noNumber id input.parameter value.inMessage)

/-- The value of a field is the one that was entered, or the number that this one stands for where
    numbers are read. -/
def Input.Gives (options : Options) (input : Input) (entered value : Value) : Prop :=
  if input.type = .number ∧ options.readNumbers = true then
    ∃ x, entered.number? = some x ∧ value = .number x
  else value = entered

theorem Block.entered?_eq_some_iff {parameter : Parameter} {value : Value} :
    block.entered? parameter = some value ↔
      block.values.get? parameter = some value ∧ value.isUnset = false := by
  simp [entered?, Option.filter_eq_some_iff]

theorem Block.entered?_eq_none_iff {parameter : Parameter} :
    block.entered? parameter = none ↔
      ∀ value, block.values.get? parameter = some value → value.isUnset = true := by
  simp [entered?, Option.filter_eq_none_iff]

/-- A value that is entered gives no field exactly if it makes its input faulty. -/
theorem Input.resolved?_eq_none_iff {value : Value} :
    input.resolved? options value = none ↔
      (∃ x, value = .number x ∧ x.isFinite = false) ∨
        input.type = .number ∧ options.readNumbers = true ∧ value.number? = none := by
  unfold resolved?
  by_cases hread : input.type = .number ∧ options.readNumbers = true
  · rw [if_pos hread, Option.map_eq_none_iff]
    cases value with
    | number x => simp [hread, Value.number?, Option.filter]
    | text s => simp [hread]
    | boolean b => simp [hread]
  · rw [if_neg hread, ← and_assoc]
    cases value with
    | number x => simp [hread]
    | text s => simp [hread]
    | boolean b => simp [hread]

/-- What is made of an entered value is what the input gives for it. -/
theorem Input.gives_of_resolved? {entered value : Value}
    (hresolved : input.resolved? options entered = some value) :
    input.Gives options entered value := by
  unfold resolved? at hresolved
  unfold Gives
  split_ifs at hresolved ⊢ with hread
  · obtain ⟨x, hx, hvalue⟩ := Option.map_eq_some_iff.1 hresolved
    exact ⟨x, hx, hvalue.symm⟩
  · cases entered with
    | number x => exact (Option.some.inj (Option.ite_none_right_eq_some.1 hresolved).2).symm
    | text s => exact (Option.some.inj hresolved).symm
    | boolean b => exact (Option.some.inj hresolved).symm

/-- Which fault an input has follows from the value that is entered for it, if there is one. -/
theorem Block.faulty_iff {fault : InputFault} :
    block.Faulty options id input fault ↔
      match block.entered? input.parameter with
      | some value => input.resolved? options value = none ∧
          fault = .noNumber id input.parameter value.inMessage
      | none => (input.isRequired = true ∧ options.requireInputs = true) ∧
          fault = .missing id input.parameter := by
  constructor
  · intro hfaulty
    cases hfaulty with
    | missing required enforced unset =>
      rw [entered?_eq_none_iff.2 unset]
      exact ⟨⟨required, enforced⟩, rfl⟩
    | @notFinite x stored notFinite =>
      rw [entered?_eq_some_iff.2 ⟨stored, rfl⟩]
      exact ⟨Input.resolved?_eq_none_iff.2 (.inl ⟨x, rfl, notFinite⟩), rfl⟩
    | noNumber stored set type read noNumber =>
      rw [entered?_eq_some_iff.2 ⟨stored, set⟩]
      exact ⟨Input.resolved?_eq_none_iff.2 (.inr ⟨type, read, noNumber⟩), rfl⟩
  · intro hfault
    cases hentered : block.entered? input.parameter with
    | none =>
      rw [hentered] at hfault
      obtain ⟨⟨required, enforced⟩, rfl⟩ := hfault
      exact .missing required enforced (entered?_eq_none_iff.1 hentered)
    | some value =>
      rw [hentered] at hfault
      obtain ⟨hresolved, rfl⟩ := hfault
      obtain ⟨stored, set⟩ := entered?_eq_some_iff.1 hentered
      obtain ⟨x, rfl, notFinite⟩ | ⟨type, read, noNumber⟩ :=
        Input.resolved?_eq_none_iff.1 hresolved
      · exact .notFinite stored notFinite
      · exact .noNumber stored set type read noNumber

/-- A block's input is not at fault exactly if there is no fault that it has. -/
theorem Block.resolves_iff (id : BlockId) :
    block.Resolves options input ↔ ∀ fault, ¬ block.Faulty options id input fault := by
  change (match block.entered? input.parameter with
    | some value => (input.resolved? options value).isSome = true
    | none => ¬ (input.isRequired = true ∧ options.requireInputs = true)) ↔ _
  simp only [faulty_iff]
  cases block.entered? input.parameter with
  | none =>
    constructor
    · intro hset fault hfault
      exact hset hfault.1
    · intro hnone hset
      exact hnone _ ⟨hset, rfl⟩
  | some value =>
    constructor
    · intro hsome fault hfault
      simp [hfault.1] at hsome
    · intro hnone
      by_contra hnot
      exact hnone _ ⟨Option.not_isSome_iff_eq_none.1 hnot, rfl⟩

/-- An input is reported exactly for what is wrong with it. -/
theorem resolveInput_eq_error_iff {fault : InputFault} :
    resolveInput options id block input = .error fault ↔ block.Faulty options id input fault := by
  rw [Block.faulty_iff, resolveInput, Block.entered?]
  cases (block.values.get? input.parameter).filter (!·.isUnset) with
  | none =>
    change (if _ then _ else _) = _ ↔ _
    rw [← ite_not, ite_eq_error_iff, not_not]
  | some value =>
    simp only [resolveValue_eq]
    cases input.resolved? options value with
    | none => simp [eq_comm]
    | some v => simp

/-- The inputs are looked at in order, and the first fault ends that. -/
theorem faultOf?_resolveInputs (inputs : List Input) :
    faultOf? (resolveInputs options id block inputs) =
      inputs.findSome? fun input => faultOf? (resolveInput options id block input) := by
  induction inputs with
  | nil => rfl
  | cons input inputs ih =>
    rw [← List.singleton_append, List.findSome?_append, List.findSome?_singleton, ← ih]
    exact faultOf?_bind fun field => faultOf?_bind_pure

/-- Of the inputs of a block, the first faulty one is reported. -/
theorem Block.fields_eq_error_iff {fault : InputFault} :
    block.fields options id = .error fault ↔
      ∃ before input after, block.kind.inputs = before ++ input :: after ∧
        (∀ earlier ∈ before, ∀ other, ¬ block.Faulty options id earlier other) ∧
        block.Faulty options id input fault := by
  rw [← faultOf?_eq_some_iff, fields, faultOf?_resolveInputs, List.findSome?_eq_some_iff]
  simp only [faultOf?_eq_some_iff, Option.eq_none_iff_forall_ne_some, Ne,
    resolveInput_eq_error_iff, and_comm]

/-- The fields of a block without faults are those of its set inputs. -/
theorem Block.forall₂_of_fields {fields : List (Parameter × Value)}
    (hfields : block.fields options id = .ok fields) :
    List.Forall₂ (fun input field => field.1 = input.parameter ∧
        ∃ entered, block.entered? input.parameter = some entered ∧
          input.Gives options entered field.2)
      (block.kind.inputs.filter fun input => (block.entered? input.parameter).isSome) fields := by
  obtain ⟨hresolves, rfl⟩ := fields_eq_ok_iff.1 hfields
  generalize block.kind.inputs = inputs at hresolves
  induction inputs with
  | nil => exact .nil
  | cons input inputs ih =>
    obtain ⟨hinput, hinputs⟩ := List.forall_mem_cons.1 hresolves
    rw [List.filterMap_cons, resolved?, ← entered?]
    rw [Resolves, ← entered?] at hinput
    cases hentered : block.entered? input.parameter with
    | none =>
      rw [List.filter_cons_of_neg (by simp [hentered])]
      exact ih hinputs
    | some entered =>
      simp only [hentered] at hinput
      obtain ⟨value, hvalue⟩ := Option.isSome_iff_exists.1 hinput
      rw [List.filter_cons_of_pos (by simp [hentered]), Option.bind_some, hvalue]
      exact .cons ⟨rfl, entered, hentered, Input.gives_of_resolved? hvalue⟩ (ih hinputs)

/-- A block whose inputs are not at fault has a field for each input that is set, in palette order
    and without repetition. The field holds the value that was entered, or the number that this one
    stands for if the input is one for numbers and these are read; and no number among the fields is
    infinite or NaN. If there are inputs at fault, the fault of the first of them is reported. -/
theorem Block.fields_or_firstFault (options : Options) (id : BlockId) (block : Block) :
    (∀ fields, block.fields options id = .ok fields →
      List.Forall₂ (fun input field => field.1 = input.parameter ∧
          ∃ entered, block.entered? input.parameter = some entered ∧
            input.Gives options entered field.2)
        (block.kind.inputs.filter fun input => (block.entered? input.parameter).isSome) fields ∧
      (fields.map (·.1)).Nodup ∧
      ∀ parameter x, (parameter, .number x) ∈ fields → x.isFinite = true) ∧
    ((∃ fields, block.fields options id = .ok fields) ↔
      ∀ input ∈ block.kind.inputs, ∀ fault, ¬ block.Faulty options id input fault) ∧
    ∀ fault, block.fields options id = .error fault ↔
      ∃ before input after, block.kind.inputs = before ++ input :: after ∧
        (∀ earlier ∈ before, ∀ other, ¬ block.Faulty options id earlier other) ∧
        block.Faulty options id input fault := by
  refine ⟨fun fields hfields => ?_, ?_, fun fault => fields_eq_error_iff⟩
  · have hregular := regular_of_fields hfields none
    exact ⟨forall₂_of_fields hfields, hregular.nodup, hregular.finite⟩
  · simp only [fields_eq_ok_iff, exists_and_left, exists_eq, and_true, resolves_iff id]

/-- A photo without a camera name, at an exposure beyond all finite numbers, with something that is
    not a number for a truth value. -/
def Block.spoiledPhoto : Block where
  kind := .captureImage
  values := .ofList [(.camera, .text "\t "), (.exposure, .text " 1e999 "), (.compress, .number .nan)]

/-- A photo without a camera name, at an exposure that a text stands for. -/
def Block.dimPhoto : Block where
  kind := .captureImage
  values := .ofList [(.camera, .text ""), (.exposure, .text " 0.25\n"), (.compress, .boolean false)]

theorem Block.fields_photos :
    dimPhoto.fields ⟨true, true⟩ ⟨4⟩ =
      .ok [(.exposure, .number ⟨0x3fd0000000000000⟩), (.compress, .boolean false)] ∧
    dimPhoto.fields ⟨true, false⟩ ⟨4⟩ =
      .ok [(.exposure, .text " 0.25\n"), (.compress, .boolean false)] ∧
    (∀ input ∈ Kind.captureImage.inputs, ∀ fault,
      ¬ dimPhoto.Faulty ⟨true, true⟩ ⟨4⟩ input fault) ∧
    (∀ other, ¬ spoiledPhoto.Faulty ⟨true, false⟩ ⟨4⟩ ⟨.exposure, .number, false⟩ other) ∧
    spoiledPhoto.fields ⟨true, false⟩ ⟨4⟩ = .error (.noNumber ⟨4⟩ .compress "NaN") ∧
    spoiledPhoto.fields ⟨true, true⟩ ⟨4⟩ = .error (.noNumber ⟨4⟩ .exposure " 1e999 ") := by
  have hcamera : spoiledPhoto.entered? .camera = none := by rfl
  have hexposure : spoiledPhoto.entered? .exposure = some (.text " 1e999 ") := by rfl
  have hcompress : spoiledPhoto.entered? .compress = some (.number .nan) := by rfl
  have hnan : Binary64.nan.isFinite = false := by decide
  have hreading : (Value.text " 1e999 ").number? = none := by decide
  have hfirst : ∀ options other,
      ¬ spoiledPhoto.Faulty options ⟨4⟩ ⟨.camera, .text, false⟩ other := by
    simp [faulty_iff, hcamera]
  have hverbatim : ∀ other,
      ¬ spoiledPhoto.Faulty ⟨true, false⟩ ⟨4⟩ ⟨.exposure, .number, false⟩ other := by
    simp [faulty_iff, hexposure, Input.resolved?]
  have hread : dimPhoto.fields ⟨true, true⟩ ⟨4⟩ =
      .ok [(.exposure, .number ⟨0x3fd0000000000000⟩), (.compress, .boolean false)] := by decide
  have hnone := (fields_or_firstFault ⟨true, true⟩ ⟨4⟩ dimPhoto).2.1.1 ⟨_, hread⟩
  refine ⟨hread, by decide, hnone, hverbatim, ?_, ?_⟩
  · refine ((fields_or_firstFault ⟨true, false⟩ ⟨4⟩ spoiledPhoto).2.2 _).2
      ⟨[⟨.camera, .text, false⟩, ⟨.exposure, .number, false⟩], ⟨.compress, .boolean, false⟩, [], rfl,
        ?_, .notFinite (entered?_eq_some_iff.1 hcompress).1 hnan⟩
    simp [hfirst, hverbatim]
  · obtain ⟨hstored, hset⟩ := entered?_eq_some_iff.1 hexposure
    refine ((fields_or_firstFault ⟨true, true⟩ ⟨4⟩ spoiledPhoto).2.2 _).2
      ⟨[⟨.camera, .text, false⟩], ⟨.exposure, .number, false⟩, [⟨.compress, .boolean, false⟩], rfl,
        ?_, .noNumber hstored hset rfl rfl hreading⟩
    simp [hfirst]

end CommandBlocks
