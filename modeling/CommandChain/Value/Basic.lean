import CommandChain.Text.Order
/-!
# Values

The objects that travel through a chain of commands: scalars, arrays, property bags, rows whose
field names are kept elsewhere, and native objects that name their own properties.

A property bag is a list of named values in the order of their names, each name once;
`Value.ofProperties` builds one from any list of pairs.
-/

namespace CommandChain

universe u

/-- The declared type of a parameter. -/
inductive ValueType where
  | any
  | bool
  | int
  | float
  | string
  | array
  | object
deriving DecidableEq

/-- The name of a type in messages. -/
def ValueType.name : ValueType → String
  | .any => "any"
  | .bool => "bool"
  | .int => "int"
  | .float => "float"
  | .string => "string"
  | .array => "array"
  | .object => "object"

def ValueType.all : List ValueType :=
  [any, bool, int, float, string, array, object]

def ValueType.ofName? (s : String) : Option ValueType :=
  all.find? (·.name == s)

/-- An object that travels through a chain. -/
inductive Value where
  | null
  | bool (b : Bool)
  | int (i : Int64)
  | float (x : Float)
  | string (s : String)
  | array (items : List Value)
  /-- A property bag. -/
  | object (properties : List (String × Value))
  /-- A row whose field names belong to the schema of `typeName`. -/
  | typed (typeName : String) (fields : List Value)
  /-- An object with an identity of its own. Names in `hidden` are listed after the named
  properties but have no value. -/
  | native (id : Nat) (typeName : String) (properties : List (String × Value))
      (hidden : List String)

namespace Value

instance : Inhabited Value := ⟨.null⟩

/-- The runtime type of a value; null has none. -/
def valueType : Value → Option ValueType
  | .null => none
  | .bool _ => some .bool
  | .int _ => some .int
  | .float _ => some .float
  | .string _ => some .string
  | .array _ => some .array
  | .object _ | .typed .. | .native .. => some .object

/-- The type name of a value in messages. -/
def typeName : Value → String
  | .typed name _ => name
  | .native _ name _ _ => name
  | v => (v.valueType.map ValueType.name).getD "null"

/-- Whether a value has a declared type without any conversion. -/
def isExactly (v : Value) (target : ValueType) : Bool :=
  target == .any || v.valueType == some target

def isNull : Value → Bool
  | .null => true
  | _ => false

/-- The truth value of a boolean. -/
def asBool : Value → Option Bool
  | .bool b => some b
  | _ => none

/-- The integer of an integer value. -/
def asInt : Value → Option Int64
  | .int i => some i
  | _ => none

/-- The number of an integer or floating-point value. -/
def asFloat : Value → Option Float
  | .int i => some (Float.ofInt i.toInt)
  | .float x => some x
  | _ => none

/-- The text of a string value. -/
def asText : Value → Option String
  | .string s => some s
  | _ => none

/-- The elements of an array. -/
def asItems : Value → Option (List Value)
  | .array items => some items
  | _ => none

/-- Whether a value counts as true: null, false, zero, empty texts and empty arrays do not, and an
array of one element counts as that element does. -/
def isTruthy : Value → Bool
  | .null => false
  | .bool b => b
  | .int i => i != 0
  | .float x => x != 0
  | .string s => s != ""
  | .array [] => false
  | .array [v] => v.isTruthy
  | .array _ => true
  | .object _ | .typed .. | .native .. => true

/-- Puts something named into a list that is in the order of its names, in the place of an earlier
entry of the same name. -/
def insertProperty {α : Type u} (name : String) (v : α) : List (String × α) → List (String × α)
  | [] => [(name, v)]
  | (key, old) :: rest =>
    match Text.compareText name key with
    | .lt => (name, v) :: (key, old) :: rest
    | .eq => (name, v) :: rest
    | .gt => (key, old) :: insertProperty name v rest

/-- The entries of a list in the order of their names, the last of a name counting. -/
def bag {α : Type u} (pairs : List (String × α)) : List (String × α) :=
  pairs.foldl (fun bag (name, v) => insertProperty name v bag) []

/-- The property bag of a list of named values. -/
def ofProperties (pairs : List (String × Value)) : Value :=
  .object (bag pairs)

/-- The names a native object lists. -/
def nativeNames (properties : List (String × Value)) (hidden : List String) : List String :=
  properties.map Prod.fst ++ hidden

mutual
/-- How deep values are nested inside a value. -/
def depth : Value → Nat
  | .array items => depthItems items + 1
  | .object properties => depthProperties properties + 1
  | .typed _ fields => depthItems fields + 1
  | .native _ _ properties _ => depthProperties properties + 1
  | _ => 0
/-- The greatest depth among values. -/
def depthItems : List Value → Nat
  | [] => 0
  | v :: rest => max v.depth (depthItems rest)
/-- The greatest depth among named values. -/
def depthProperties : List (String × Value) → Nat
  | [] => 0
  | (_, v) :: rest => max v.depth (depthProperties rest)
end

mutual
/-- Equality by structure. Floating-point numbers compare as numbers, so a NaN differs from itself
and the two zeros agree; native objects compare by identity. -/
def same : Value → Value → Bool
  | .null, .null => true
  | .bool a, .bool b => a == b
  | .int a, .int b => a == b
  | .float a, .float b => a == b
  | .string a, .string b => a == b
  | .array a, .array b => sameItems a b
  | .object a, .object b => sameProperties a b
  | .typed t a, .typed u b => t == u && sameItems a b
  | .native i _ _ _, .native j _ _ _ => i == j
  | _, _ => false
/-- Equality of lists of values. -/
def sameItems : List Value → List Value → Bool
  | [], [] => true
  | a :: as, b :: bs => same a b && sameItems as bs
  | _, _ => false
/-- Equality of lists of named values. -/
def sameProperties : List (String × Value) → List (String × Value) → Bool
  | [], [] => true
  | (k, a) :: as, (l, b) :: bs => k == l && same a b && sameProperties as bs
  | _, _ => false
end

instance : BEq Value := ⟨same⟩

end Value

end CommandChain
