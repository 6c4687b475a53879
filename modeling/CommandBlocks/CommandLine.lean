import CommandBlocks.Canvas.Import
import CommandBlocks.Files

namespace CommandBlocks

/-- What the user asks for. -/
inductive Command where
  /-- The palette. -/
  | kinds
  /-- The program of a canvas document; a path after the canvas says where to keep a snapshot of the
      imported graph. -/
  | compile (canvas : String) (snapshot? : Option String) (policy : EdgePolicy) (options : Options)
      (asListing : Bool)
  /-- The program of the graph in a snapshot. -/
  | inspect (snapshot : String) (options : Options) (asListing : Bool)
  deriving DecidableEq, Repr

/-- The arguments of a command, sorted. -/
structure Arguments where
  paths : List String := []
  flags : List String := []
  snapshot? : Option String := none

namespace Arguments

private def isVerbose (arg : String) : Bool :=
  arg == "--verbose" || match arg.toList with
    | '-' :: 'v' :: more => more.all (· == 'v')
    | _ => false

private def isOption (arg : String) : Bool :=
  match arg.toList with
  | '-' :: _ :: _ => true
  | _ => false

/-- Keeps the path for a snapshot, which may be given only once. -/
def withSnapshot (a : Arguments) (path : String) : Option Arguments :=
  if a.snapshot?.isSome then none else some { a with snapshot? := some path }

/-- Sorts the arguments of a command that knows some flags, and a path for a snapshot if
    `takesSnapshot`. None if an argument is unknown, repeated or without its value. -/
def sort (flags : List String) (takesSnapshot : Bool) (a : Arguments) :
    List String → Option Arguments
  | [] => some a
  | arg :: rest =>
    if arg = "--" then some { a with paths := a.paths ++ rest }
    else if isVerbose arg then sort flags takesSnapshot a rest
    else if arg ∈ flags then
      if arg ∈ a.flags then none
      else sort flags takesSnapshot { a with flags := arg :: a.flags } rest
    else if takesSnapshot ∧ arg = "--snapshot" then
      match rest with
      | path :: rest =>
        if isOption path then none
        else do sort flags takesSnapshot (← a.withSnapshot path) rest
      | [] => none
    else match takesSnapshot, "--snapshot=".toList.isPrefixOf? arg.toList with
      | true, some path => do sort flags takesSnapshot (← a.withSnapshot (.ofList path)) rest
      | _, _ =>
        if isOption arg then none
        else sort flags takesSnapshot { a with paths := a.paths ++ [arg] } rest

end Arguments

namespace Command

/-- The options of a command line: a required input has to be set only on demand. -/
def optionsOf (a : Arguments) : Options := { requireInputs := "--enforce-required" ∈ a.flags }

/-- The command of the arguments behind its name. -/
def ofNameAndArguments (name : String) (args : List String) : Option Command := do
  match name with
  | "kinds" => do
    let a ← Arguments.sort [] false {} args
    guard a.paths.isEmpty
    return kinds
  | "compile" => do
    let a ← Arguments.sort ["--restore", "--enforce-required", "--tree"] true {} args
    let [canvas] := a.paths | failure
    let policy := if "--restore" ∈ a.flags then .unruled else .ruled
    return compile canvas a.snapshot? policy (optionsOf a) ("--tree" ∈ a.flags)
  | "inspect" => do
    let a ← Arguments.sort ["--enforce-required", "--tree"] false {} args
    let [snapshot] := a.paths | failure
    return inspect snapshot (optionsOf a) ("--tree" ∈ a.flags)
  | _ => failure

/-- The command of a command line, if it is one. -/
def ofArguments (args : List String) : Option Command :=
  match args.dropWhile Arguments.isVerbose with
  | [] => none
  | name :: args => ofNameAndArguments name args

/-- How a command ends: with an output, or with the message of a fault. -/
abbrev Outcome := Except String String

/-- The status that the program ends with. -/
def Outcome.status : Outcome → UInt32
  | .ok _ => 0
  | .error _ => 1

/-- What the program writes to its standard output. -/
def Outcome.output : Outcome → String
  | .ok output => output
  | .error _ => ""

/-- A program as output, as a listing or as JSON. -/
def programText (program : Program) (asListing : Bool) : String :=
  if asListing then program.listing else program.toJson.pretty ++ "\n"

/-- Compiles a graph, and explains what keeps it from being compiled. -/
def compileGraph (g : Graph) (options : Options) (asListing : Bool)
    (explain : CompileFault → String) : Outcome :=
  match g.compile options with
  | .error fault => .error s!"Compilation failed: {explain fault}"
  | .ok program => .ok (programText program asListing)

variable {m : Type → Type} [Monad m]

/-- Compiles a canvas document. The snapshot is written before the graph is compiled, so it is there
    even if there is no program. -/
def compileCanvas (files : Files m) (canvas : String) (snapshot? : Option String)
    (policy : EdgePolicy) (options : Options) (asListing : Bool) : m Outcome := do
  match ← files.readText canvas with
  | .error fault =>
    return .error s!"Failed to read canvas file '{canvas}': {fault.message}"
  | .ok text =>
    match Canvas.importText text policy with
    | .error fault => return .error s!"Failed to import canvas: {fault.message}"
    | .ok imported =>
      let saved ← match snapshot? with
        | none => pure (.ok ())
        | some path => files.saveSnapshot path imported.graph.snapshot
      match saved with
      | .error fault => return .error s!"Failed to write snapshot: {fault.message}"
      | .ok _ => return compileGraph imported.graph options asListing imported.explain

/-- Compiles the graph in a snapshot. -/
def compileSnapshot (files : Files m) (snapshot : String) (options : Options) (asListing : Bool) :
    m Outcome := do
  match ← files.loadSnapshot snapshot with
  | .error fault => return .error s!"Failed to load snapshot: {fault.message}"
  | .ok s =>
    match s.restore with
    | .error fault => return .error s!"Failed to restore graph: {fault.message}"
    | .ok g => return compileGraph g options asListing CompileFault.message

/-- Runs a command. -/
def run (files : Files m) : Command → m Outcome
  | kinds => return .ok ((Json.array (Kind.all.map Kind.toJson)).pretty ++ "\n")
  | compile canvas snapshot? policy options asListing =>
    compileCanvas files canvas snapshot? policy options asListing
  | inspect snapshot options asListing => compileSnapshot files snapshot options asListing

end Command

end CommandBlocks
