/-!
# JSON documents

A document as it is read or written: the members of an object keep their order, and a name may
occur more than once. A number without fraction and exponent that a machine word holds is an
integer, every other number a double; a number too large for a double is read as an infinity,
which no document denotes and which is written as `null`.
-/

namespace CommandChain

inductive Json where
  | null
  | bool (b : Bool)
  | int (i : Int)
  | float (x : Float)
  | string (s : String)
  | array (items : List Json)
  | object (members : List (String × Json))

namespace Json

instance : Inhabited Json := ⟨.null⟩

/-- The text of a document that is one. -/
def string? : Json → Option String
  | .string s => some s
  | _ => none

/-- The first member of that name. -/
def member? (name : String) : Json → Option Json
  | .object members => members.lookup name
  | _ => none

/-- The parts of a document that stands for a record with some fields: the members of an object by
their names, none of them twice, or the elements of an array in order. Other members do not count,
but an array has no elements beyond the fields. -/
def fields? (names : List String) : Json → Option (List (Option Json))
  | .object members =>
    if names.any fun name => 1 < (members.filter (·.1 == name)).length then none
    else some (names.map fun name => members.lookup name)
  | .array items =>
    if names.length < items.length then none
    else some (items.map some ++ List.replicate (names.length - items.length) none)
  | _ => none

/-- What a part stands for, or the default where the part is missing. -/
def part {α : Type} (default : α) (read? : Json → Option α) : Option Json → Option α
  | none => some default
  | some j => read? j

/-- The name that a document stands for where only a name is expected: a text, or an object whose
only member is null. -/
def choice? : Json → Option String
  | .string s => some s
  | .object [(name, .null)] => some name
  | _ => none

end Json

end CommandChain
