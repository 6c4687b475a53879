import CommandBlocks.Json

namespace CommandBlocks

/-- The kinds of command blocks, in palette order. -/
inductive Kind where
  | ifThen
  | ifElse
  | waitSeconds
  | repeatTimes
  | gpioWrite
  | captureImage
  deriving DecidableEq, Repr, Inhabited

/-- The parameters that blocks take values for. -/
inductive Parameter where
  | condition
  | duration
  | count
  | pin
  | value
  | camera
  | exposure
  | compress
  deriving DecidableEq, Repr, Inhabited

/-- The type that a parameter's values should have. -/
inductive ValueType where
  | number
  | text
  | boolean
  deriving DecidableEq, Repr

/-- A parameter that a kind of block declares. -/
structure Input where
  parameter : Parameter
  type : ValueType
  isRequired : Bool
  deriving DecidableEq, Repr

/-- How many blocks may be nested directly inside a block. -/
inductive Capacity where
  | closed
  | atMost (limit : Nat)
  | unbounded
  deriving DecidableEq, Repr

/-- Whether one more block fits inside a block that holds some already. -/
def Capacity.hasRoom (capacity : Capacity) (held : Nat) : Bool :=
  match capacity with
  | closed => false
  | atMost limit => held < limit
  | unbounded => true

namespace Parameter

def all : List Parameter :=
  [condition, duration, count, pin, value, camera, exposure, compress]

/-- The name of a parameter in documents and programs. -/
def name : Parameter → String
  | condition => "condition"
  | duration => "duration"
  | count => "count"
  | pin => "pin"
  | value => "value"
  | camera => "camera"
  | exposure => "exposure"
  | compress => "compress"

/-- The parameter of a name. -/
def ofName? (name : String) : Option Parameter := all.find? (·.name == name)

theorem name_inj {p q : Parameter} (h : p.name = q.name) : p = q := by
  cases p <;> cases q <;> first | rfl | (revert h; decide)

/-- Parameters are ordered by their names. -/
instance : Ord Parameter := ⟨fun p q => compare p.name q.name⟩

instance : Std.TransOrd Parameter where
  eq_swap := Std.OrientedOrd.eq_swap (α := String)
  isLE_trans := Std.TransOrd.isLE_trans (α := String)

instance : Std.LawfulEqOrd Parameter where
  compare_self := Std.ReflOrd.compare_self (α := String)
  eq_of_compare h := name_inj (Std.LawfulEqOrd.eq_of_compare (α := String) h)

end Parameter

def ValueType.name : ValueType → String
  | number => "number"
  | text => "text"
  | boolean => "boolean"

namespace Kind

/-- All kinds, in palette order. -/
def all : List Kind := [ifThen, ifElse, waitSeconds, repeatTimes, gpioWrite, captureImage]

/-- The name of a kind in documents and programs. -/
def name : Kind → String
  | ifThen => "if"
  | ifElse => "ifelse"
  | waitSeconds => "wait-sec"
  | repeatTimes => "repeat-n"
  | gpioWrite => "gpio-write"
  | captureImage => "capture-image"

/-- The kind of a name. -/
def ofName? (name : String) : Option Kind := all.find? (·.name == name)

/-- The declared inputs of a kind, in the order in which a program lists them. -/
def inputs : Kind → List Input
  | ifThen | ifElse => [⟨.condition, .text, true⟩]
  | waitSeconds => [⟨.duration, .number, true⟩]
  | repeatTimes => [⟨.count, .number, true⟩]
  | gpioWrite => [⟨.pin, .number, true⟩, ⟨.value, .number, true⟩]
  | captureImage =>
    [⟨.camera, .text, false⟩, ⟨.exposure, .number, false⟩, ⟨.compress, .boolean, false⟩]

/-- How many blocks may be nested inside a block of a kind. -/
def capacity : Kind → Capacity
  | ifThen => .atMost 1
  | ifElse => .atMost 2
  | repeatTimes => .unbounded
  | waitSeconds | gpioWrite | captureImage => .closed

/-- The input that a kind declares under a name. -/
def inputNamed? (kind : Kind) (name : String) : Option Input :=
  kind.inputs.find? (·.parameter.name == name)

end Kind

/-- The refusal of a name that no kind of block has. -/
structure UnknownKind where
  name : String
  deriving DecidableEq, Repr

def UnknownKind.message (fault : UnknownKind) : String := s!"Unknown block kind '{fault.name}'"

/-- The kind of a name, or the refusal of it. -/
def Kind.ofName (name : String) : Except UnknownKind Kind :=
  match ofName? name with
  | some kind => .ok kind
  | none => .error ⟨name⟩

def Input.toJson (input : Input) : Json :=
  .object [("name", .string input.parameter.name), ("type", .string input.type.name),
    ("required", .boolean input.isRequired)]

/-- The palette's description of a kind. The number of nested blocks is left out when there is no
    bound on it or none may be nested. -/
def Kind.toJson (kind : Kind) : Json :=
  .object <|
    [("kind", .string kind.name), ("parameters", .array (kind.inputs.map Input.toJson)),
      ("canHaveChildren", .boolean (kind.capacity != .closed))]
    ++ match kind.capacity with
      | .atMost limit => [("maxChildren", .number (.integer limit))]
      | _ => []

end CommandBlocks
