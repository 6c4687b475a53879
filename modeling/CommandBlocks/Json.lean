import CommandBlocks.Binary64
import CommandBlocks.Table

namespace CommandBlocks

namespace Json

/-- A JSON number: an integer of 64 bits with or without sign, or a floating-point number. -/
inductive Number where
  | integer (n : Int)
  | binary (x : Binary64)
  deriving DecidableEq, Repr

/-- The floating-point number nearest to a JSON number. -/
def Number.toBinary64 : Number → Binary64
  | .integer n => .ofInt n
  | .binary x => x

end Json

/-- A JSON value. An object lists its members in the order in which they are written. -/
inductive Json where
  | null
  | boolean (b : Bool)
  | number (n : Json.Number)
  | string (s : String)
  | array (items : List Json)
  | object (members : List (String × Json))
  deriving Repr, Inhabited

namespace Json

mutual

/-- The value with the members of every object in ascending order of their keys. Of members with one
    key the last is kept. -/
def canonical : Json → Json
  | array items => array (canonicalItems items)
  | object members => object (Table.ofList (canonicalMembers members)).entries
  | scalar => scalar

def canonicalItems : List Json → List Json
  | [] => []
  | value :: rest => value.canonical :: canonicalItems rest

def canonicalMembers : List (String × Json) → List (String × Json)
  | [] => []
  | member :: rest => canonicalMember member :: canonicalMembers rest

def canonicalMember : String × Json → String × Json
  | (key, value) => (key, value.canonical)

end

end Json

end CommandBlocks
