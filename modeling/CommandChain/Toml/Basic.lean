/-!
# TOML documents

A document is a table of named values. A date or time is a table whose only entry holds its text
under a reserved name.
-/

namespace CommandChain

inductive Toml where
  | string (s : String)
  | int (i : Int)
  | float (x : Float)
  | bool (b : Bool)
  | array (items : List Toml)
  | table (entries : List (String × Toml))

namespace Toml

instance : Inhabited Toml := ⟨.table []⟩

/-- The reserved name under which a date or time stands. -/
def dateTimeName : String :=
  "$__toml_private_datetime"

/-- A date or time. -/
def ofDateTime (s : String) : Toml :=
  .table [(dateTimeName, .string s)]

/-- The text of a value that is one. -/
def string? : Toml → Option String
  | string s => some s
  | _ => none

/-- The number of a value that is a natural number. -/
def nat? : Toml → Option Nat
  | int (.ofNat n) => some n
  | _ => none

def isTable : Toml → Bool
  | table _ => true
  | _ => false

/-- Whether a value is an empty table or an empty array. -/
def isEmptyGroup : Toml → Bool
  | table [] | array [] => true
  | _ => false

/-- The parts of a value that stands for a record with some fields: the entries of a table by their
names, or the elements of an array in order. Entries and elements beyond the fields do not
count. -/
def fields? (names : List String) : Toml → Option (List (Option Toml))
  | table entries => some (names.map fun name => entries.lookup name)
  | array items => some (spread names items)
  | _ => none
where
  /-- The elements for the fields in order. -/
  spread : List String → List Toml → List (Option Toml)
    | [], _ => []
    | _ :: names, [] => none :: spread names []
    | _ :: names, v :: rest => some v :: spread names rest

/-- What a part stands for, or the default where the part is missing. -/
def part {α : Type} (default : α) (read? : Toml → Option α) : Option Toml → Option α
  | none => some default
  | some v => read? v

/-- The name that a value stands for where only a name is expected: a text, or a table whose only
entry is empty. -/
def choice? : Toml → Option String
  | string s => some s
  | table [(name, v)] => if v.isEmptyGroup then some name else none
  | _ => none

end Toml

end CommandChain
