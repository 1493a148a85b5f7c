import CommandChain.Toml.Basic
/-!
# Building TOML tables

A document is put together line by line: headers open tables and rows of tables, and names with
points lead into tables of their own. A table knows how it came about, because a table is defined
once: a header may open a table that so far was only passed through, and a name with points may
lead only into tables that such names made.
-/

namespace CommandChain.Toml

/-- How a table came about. -/
inductive Origin where
  /-- By a header, or as the document itself. -/
  | header
  /-- On the way of a header to a table further down. -/
  | passage
  /-- On the way of a name with points. -/
  | dotted
deriving DecidableEq

/-- A table under construction and what stands in it. -/
inductive Node where
  /-- A finished value. -/
  | value (v : Toml)
  | table (origin : Origin) (entries : List (String × Node))
  /-- The rows of an array of tables, the newest first. -/
  | rows (tables : List Node)

namespace Node

def empty : Node :=
  .table .header []

mutual
/-- The finished value. -/
def toToml : Node → Toml
  | .value v => v
  | .table _ entries => .table (entriesToToml entries)
  | .rows tables => .array (rowsToToml tables)
/-- The finished entries. -/
def entriesToToml : List (String × Node) → List (String × Toml)
  | [] => []
  | (name, node) :: rest => (name, node.toToml) :: entriesToToml rest
/-- The finished rows, the oldest first. -/
def rowsToToml : List Node → List Toml
  | [] => []
  | node :: rest => rowsToToml rest ++ [node.toToml]
end

/-- The entries with a new one in the place of an entry of the same name, or at the end. -/
def put (name : String) (node : Node) : List (String × Node) → List (String × Node)
  | [] => [(name, node)]
  | (other, old) :: rest =>
    if other == name then (name, node) :: rest else (other, old) :: put name node rest

/-- Changes the table that a path leads to, which is made where there is none. A path leads into
the newest row of an array of tables. -/
def changeAt (way : Origin) (change : Node → Option Node) : List String → Node → Option Node
  | [], node => change node
  | name :: path, .table origin entries => do
    let next := (entries.lookup name).getD (.table way [])
    let changed ← match next with
      | .value _ => none
      | .rows [] => none
      | .rows (newest :: older) =>
        (changeAt way change path newest).map fun newest => .rows (newest :: older)
      | .table nextOrigin nextEntries =>
        if way == .dotted && nextOrigin == .header then none
        else changeAt way change path (.table nextOrigin nextEntries)
    return .table origin (put name changed entries)
  | _ :: _, _ => none

/-- Adds a finished value to the table that a name with points leads to. -/
def insert (path : List String) (name : String) (v : Toml) : Node → Option Node :=
  changeAt .dotted (fun
    | .table origin entries =>
      if (origin == .dotted) == path.isEmpty || (entries.lookup name).isSome then none
      else some (.table origin (entries ++ [(name, .value v)]))
    | _ => none) path

def openTable (path : List String) (name : String) : Node → Option Node :=
  changeAt .passage (fun
    | .table origin entries =>
      match entries.lookup name with
      | none => some (.table origin (put name (.table .header []) entries))
      | some (.table .passage inner) =>
        some (.table origin (put name (.table .header inner) entries))
      | some _ => none
    | _ => none) path

/-- Opens a row of an array of tables with its header. -/
def openRow (path : List String) (name : String) : Node → Option Node :=
  changeAt .passage (fun
    | .table origin entries =>
      match entries.lookup name with
      | none => some (.table origin (put name (.rows [empty]) entries))
      | some (.rows older) => some (.table origin (put name (.rows (empty :: older)) entries))
      | some _ => none
    | _ => none) path

/-- Adds a finished value below the table that a header opened. -/
def insertBelow (header path : List String) (name : String) (v : Toml) : Node → Option Node :=
  changeAt .passage (insert path name v) header

end Node

end CommandChain.Toml
