import CommandBlocks.Json
import CommandBlocks.Palette
import CommandBlocks.Value

namespace CommandBlocks

/-- A statement of a program. -/
inductive Statement where
  /-- A kind, the values of its inputs in palette order, and the nested statements; no body stands
      for no nested statements. -/
  | mk (kind : Kind) (fields : List (Parameter × Value)) (body : Option (List Statement))
  deriving Repr

/-- The statements of a program, in the order in which they run. -/
abbrev Program := List Statement

namespace Statement

def kind : Statement → Kind
  | mk kind _ _ => kind

def fields : Statement → List (Parameter × Value)
  | mk _ fields _ => fields

def body? : Statement → Option (List Statement)
  | mk _ _ body => body

/-- The nested statements, if any. -/
def body (s : Statement) : List Statement := s.body?.getD []

/-- The value of a field. -/
def field? (s : Statement) (parameter : Parameter) : Option Value :=
  (s.fields.find? (·.1 == parameter)).map (·.2)

mutual

/-- A statement as JSON: its name, its fields, and its body if it has one. -/
def toJson : Statement → Json
  | mk kind fields body =>
    .object <| ("name", .string kind.name)
      :: fields.map (fun (parameter, value) => (parameter.name, value.toJson)) ++ bodyMember body

def bodyMember : Option (List Statement) → List (String × Json)
  | none => []
  | some body => [("body", .array (itemsToJson body))]

def itemsToJson : List Statement → List Json
  | [] => []
  | statement :: rest => statement.toJson :: itemsToJson rest

end

/-- A field in a listing: its name and its value. -/
def fieldText (field : Parameter × Value) : String := field.1.name ++ "=" ++ field.2.display

mutual

/-- The lines of a statement and of those nested in it, two blanks deeper for each level. -/
def lines (depth : Nat) : Statement → List String
  | mk kind fields body =>
    (String.ofList (List.replicate (2 * depth) ' ') ++ kind.name
        ++ (if fields.isEmpty then "" else " " ++ " ".intercalate (fields.map fieldText)))
      :: bodyLines (depth + 1) body

def bodyLines (depth : Nat) : Option (List Statement) → List String
  | none => []
  | some body => itemLines depth body

def itemLines (depth : Nat) : List Statement → List String
  | [] => []
  | statement :: rest => statement.lines depth ++ itemLines depth rest

end

end Statement

/-- A program as JSON, an array of its statements. -/
def Program.toJson (program : Program) : Json := .array (Statement.itemsToJson program)

/-- A program as an indented listing, each statement on a line of its own. -/
def Program.listing (program : Program) : String :=
  String.join ((Statement.itemLines 0 program).map (· ++ "\n"))

end CommandBlocks
