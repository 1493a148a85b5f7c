import CommandChain.Json.Writer
import CommandChain.Json.Reader
import CommandChain.Value.Basic
/-!
# Values as JSON documents

Every value has a document: rows show their type name and fields, native objects the properties
they list. A document read back yields scalars, arrays and property bags only. Whole numbers become
integers where 64 signed bits hold them, and other numbers doubles.
-/

namespace CommandChain.Value

mutual
def toJson : Value → Json
  | .null => .null
  | .bool b => .bool b
  | .int i => .int i.toInt
  | .float x => .float x
  | .string s => .string s
  | .array items => .array (itemsToJson items)
  | .object properties => .object (propertiesToJson properties)
  | .typed name fields =>
    .object [("type_name", .string name), ("fields", .array (itemsToJson fields))]
  | .native _ _ properties hidden =>
    let named := propertiesToJson properties
    .object ((properties.map Prod.fst ++ hidden).map fun name =>
      (name, (named.lookup name).getD .null))
def itemsToJson : List Value → List Json
  | [] => []
  | v :: rest => v.toJson :: itemsToJson rest
def propertiesToJson : List (String × Value) → List (String × Json)
  | [] => []
  | (name, v) :: rest => (name, v.toJson) :: propertiesToJson rest
end

/-- The compact JSON text of a value. -/
def jsonText (v : Value) : String :=
  v.toJson.text

/-- The deepest nesting of arrays and objects that is read. -/
def nestingLimit : Nat := 127

mutual
/-- The value of a document whose arrays and objects nest at most `limit` deep and whose numbers
are finite. -/
def ofJson? (limit : Nat) : Json → Option Value
  | .null => some .null
  | .bool b => some (.bool b)
  | .int i =>
    some (match Decimal.int64? i with
      | some i => .int i
      | none => .float (Float.ofInt i))
  | .float x => if Decimal.isFinite x then some (.float x) else none
  | .string s => some (.string s)
  | .array items =>
    if limit == 0 then none else (itemsOfJson? (limit - 1) items).map .array
  | .object members =>
    if limit == 0 then none else (membersOfJson? (limit - 1) members).map ofProperties
/-- The values of the elements. -/
def itemsOfJson? (limit : Nat) : List Json → Option (List Value)
  | [] => some []
  | j :: rest => do return (← ofJson? limit j) :: (← itemsOfJson? limit rest)
/-- The named values of the members. -/
def membersOfJson? (limit : Nat) : List (String × Json) → Option (List (String × Value))
  | [] => some []
  | (name, j) :: rest => do return (name, ← ofJson? limit j) :: (← membersOfJson? limit rest)
end

/-- The value a JSON text denotes. -/
def readJson? (s : String) : Option Value :=
  (Json.read? s).bind (ofJson? nestingLimit)

end CommandChain.Value
