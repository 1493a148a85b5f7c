import CommandChain.Adapter
import CommandChain.Script.Limits
/-!
# Data of scripts

Scripts compute with data of their own. A value becomes a datum when it enters a script: rows and
native objects turn into maps of the properties the adapter lists for them, however deep they lie.
A datum becomes a value again without any change of shape.
-/

namespace CommandChain.Script

/-- What a script computes with. -/
inductive Datum where
  | unit
  | bool (b : Bool)
  | int (i : Int64)
  | float (x : Float)
  | text (s : String)
  | array (items : List Datum)
  /-- Named data in the order of the names. -/
  | map (entries : List (String × Datum))

namespace Datum

instance : Inhabited Datum := ⟨.unit⟩

/-- The datum of a value. The fuel bounds the depth of the value; what lies deeper becomes a
unit. -/
def ofValueWithin (adapter : Adapter) : Nat → Value → Datum
  | 0, _ => .unit
  | fuel + 1, v =>
    match v with
    | .null => .unit
    | .bool b => .bool b
    | .int i => .int i
    | .float x => .float x
    | .string s => .text s
    | .array items => .array (items.map (ofValueWithin adapter fuel))
    | .object properties =>
      .map (properties.map fun (name, w) => (name, ofValueWithin adapter fuel w))
    | .typed .. | .native .. =>
      let names := (adapter.propertyNames? v).getD []
      .map (names.foldl (fun entries name =>
        let datum := match adapter.property? v name with
          | some w => ofValueWithin adapter fuel w
          | none => .unit
        Value.insertProperty name datum entries) [])

def ofValue (adapter : Adapter) (v : Value) : Datum :=
  ofValueWithin adapter (v.depth + 1) v

mutual
def toValue : Datum → Value
  | .unit => .null
  | .bool b => .bool b
  | .int i => .int i
  | .float x => .float x
  | .text s => .string s
  | .array items => .array (toValues items)
  | .map entries => .object (toProperties entries)
/-- The values of a list of data. -/
def toValues : List Datum → List Value
  | [] => []
  | d :: rest => d.toValue :: toValues rest
/-- The properties of the entries of a map. -/
def toProperties : List (String × Datum) → List (String × Value)
  | [] => []
  | (name, d) :: rest => (name, d.toValue) :: toProperties rest
end

/-- The entry of a map, or a unit where there is none. -/
def entryOrUnit (entries : List (String × Datum)) (name : String) : Datum :=
  (entries.lookup name).getD .unit

/-- The map of a list of entries, the last of a name counting. -/
def ofEntries (entries : List (String × Datum)) : Datum :=
  .map (entries.foldl (fun sorted (name, d) => Value.insertProperty name d sorted) [])

end Datum

end CommandChain.Script
