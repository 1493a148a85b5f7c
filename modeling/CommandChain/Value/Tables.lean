import CommandChain.Toml.Basic
import CommandChain.Value.Document
/-!
# Values as TOML documents

A TOML document holds every value but null: what its JSON document shows, it shows with tables in
the place of objects. A date or time that is read is a property bag.
-/

namespace CommandChain

mutual
/-- The TOML document with the content of a JSON document, unless there is a null in it. -/
def Toml.ofJson? : Json → Option Toml
  | .null => none
  | .bool b => some (.bool b)
  | .int i => some (.int i)
  | .float x => some (.float x)
  | .string s => some (.string s)
  | .array items => (Toml.itemsOfJson? items).map .array
  | .object members => (Toml.entriesOfJson? members).map .table
/-- The elements. -/
def Toml.itemsOfJson? : List Json → Option (List Toml)
  | [] => some []
  | j :: rest => do return (← Toml.ofJson? j) :: (← Toml.itemsOfJson? rest)
/-- The entries. -/
def Toml.entriesOfJson? : List (String × Json) → Option (List (String × Toml))
  | [] => some []
  | (name, j) :: rest => do return (name, ← Toml.ofJson? j) :: (← Toml.entriesOfJson? rest)
end

namespace Value

mutual
def ofToml : Toml → Value
  | .string s => .string s
  | .int i => .int (Int64.ofInt i)
  | .float x => .float x
  | .bool b => .bool b
  | .array items => .array (itemsOfToml items)
  | .table entries => ofProperties (entriesOfToml entries)
/-- The values of the elements. -/
def itemsOfToml : List Toml → List Value
  | [] => []
  | v :: rest => ofToml v :: itemsOfToml rest
/-- The named values of the entries. -/
def entriesOfToml : List (String × Toml) → List (String × Value)
  | [] => []
  | (name, v) :: rest => (name, ofToml v) :: entriesOfToml rest
end

end Value

end CommandChain
