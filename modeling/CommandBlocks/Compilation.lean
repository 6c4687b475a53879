import CommandBlocks.Graph.Shape
import CommandBlocks.Program

namespace CommandBlocks

/-- How the values entered for inputs are treated. -/
structure Options where
  /-- Whether a required input has to be set. -/
  requireInputs : Bool := false
  /-- Whether the values of number inputs are turned into numbers. -/
  readNumbers : Bool := true
  deriving DecidableEq, Repr

/-- What is wrong with the value of a block's input. -/
inductive InputFault where
  | missing (id : BlockId) (parameter : Parameter)
  | noNumber (id : BlockId) (parameter : Parameter) (found : String)
  deriving DecidableEq, Repr

/-- The block at fault. -/
def InputFault.block : InputFault → BlockId
  | missing id _ | noNumber id _ _ => id

def InputFault.message : InputFault → String
  | missing id parameter =>
    s!"Node {id.blockText} is missing required input '{parameter.name}'"
  | noNumber id parameter found =>
    s!"Input '{parameter.name}' of node {id.blockText} expects a finite number, but found '{found}'"

/-- Why a graph has no program. -/
inductive CompileFault where
  | shape (fault : ShapeFault)
  | input (fault : InputFault)
  deriving DecidableEq, Repr

/-- The block at fault. -/
def CompileFault.block : CompileFault → BlockId
  | shape fault => fault.block
  | input fault => fault.block

def CompileFault.message : CompileFault → String
  | shape fault => fault.message
  | input fault => fault.message

/-- A value in a message about it: texts are shown as they are. -/
def Value.inMessage : Value → String
  | .text s => s
  | v => v.display

/-- The value that a program gives to an input, from the value entered for it. A number has to be
    finite whatever the input's type. -/
def resolveValue (options : Options) (id : BlockId) (input : Input) (value : Value) :
    Except InputFault Value :=
  let fault := .noNumber id input.parameter value.inMessage
  let isInfinite := match value with
    | .number x => !x.isFinite
    | _ => false
  if isInfinite then .error fault
  else if input.type = .number ∧ options.readNumbers then
    match value.number? with
    | some x => .ok (.number x)
    | none => .error fault
  else .ok value

/-- The field of an input, or none if its value is not set. -/
def resolveInput (options : Options) (id : BlockId) (block : Block) (input : Input) :
    Except InputFault (Option (Parameter × Value)) :=
  match (block.values.get? input.parameter).filter (!·.isUnset) with
  | some value => do return some (input.parameter, ← resolveValue options id input value)
  | none =>
    if input.isRequired ∧ options.requireInputs then .error (.missing id input.parameter)
    else .ok none

/-- The fields of the set inputs among some, or the fault of the first of them at fault. -/
def resolveInputs (options : Options) (id : BlockId) (block : Block) :
    List Input → Except InputFault (List (Parameter × Value))
  | [] => .ok []
  | input :: rest => do
    let field ← resolveInput options id block input
    let fields ← resolveInputs options id block rest
    return field.toList ++ fields

/-- The fields of a block's statement, in palette order. -/
def Block.fields (options : Options) (id : BlockId) (block : Block) :
    Except InputFault (List (Parameter × Value)) :=
  resolveInputs options id block block.kind.inputs

/-- A statement whose body is being put together, with what waits for it to be complete: the blocks
    still to come beside it, and the statements already complete beside it, the latest first. -/
structure OpenStatement where
  id : BlockId
  kind : Kind
  fields : List (Parameter × Value)
  pending : List BlockId
  complete : List Statement

/-- The statement that an open one becomes with the statements nested in it, the latest first. -/
def OpenStatement.close (o : OpenStatement) (nested : List Statement) : Statement :=
  .mk o.kind o.fields (if nested.isEmpty then none else some nested.reverse)

/-- A bound on the steps that open statements call for, apart from those for further blocks. -/
def openWeight : List OpenStatement → Nat
  | [] => 0
  | o :: opened => o.pending.length + 2 + openWeight opened

namespace Graph

/-- The block that runs after a block. -/
def successor? (g : Graph) (id : BlockId) : Option BlockId :=
  (g.outgoing id .next).head?.map (·.2.target)

/-- The blocks that start the chains nested in a block. -/
def children (g : Graph) (id : BlockId) : List BlockId :=
  (g.outgoing id .child).map (·.2.target)

/-- Puts a program together. The innermost level has blocks still to come and statements already
    complete, the latest first; around it are open statements, the innermost first. A block that is
    no longer fresh was met before, and identifiers of no block are passed over. -/
def build (g : Graph) (options : Options) (fresh : List BlockId)
    (pending : List BlockId) (complete : List Statement) (opened : List OpenStatement) :
    Except CompileFault Program :=
  match pending, opened with
  | id :: pending, opened =>
    match g.blocks.get? id with
    | none => g.build options fresh pending complete opened
    | some block =>
      if id ∈ fresh then
        match block.fields options id with
        | .error fault => .error (.input fault)
        | .ok fields =>
          g.build options (fresh.erase id) (g.children id) []
            (⟨id, block.kind, fields, pending, complete⟩ :: opened)
      else .error (.shape (.cycle id))
  | [], [] => .ok complete.reverse
  | [], o :: opened =>
    g.build options fresh ((g.successor? o.id).toList ++ o.pending)
      (o.close complete :: o.complete) opened
termination_by (fresh.length, pending.length + openWeight opened)
decreasing_by
  · simp [Prod.lex_def]
  · rename_i h
    have := List.length_erase_of_mem h
    have := List.length_pos_of_mem h
    exact Prod.Lex.left _ _ (by omega)
  · have : (g.successor? o.id).toList.length ≤ 1 := by cases g.successor? o.id <;> simp
    apply Prod.Lex.right
    simp only [List.length_append, openWeight, List.length_nil]
    omega

/-- The program of a graph: the statements of its roots, each followed by its chain. -/
def compile (g : Graph) (options : Options) : Except CompileFault Program :=
  match g.shapeFault? with
  | some fault => .error (.shape fault)
  | none => g.build options g.blocks.keys g.roots [] []

end Graph

end CommandBlocks
