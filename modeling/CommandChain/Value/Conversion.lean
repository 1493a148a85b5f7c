import CommandChain.Decimal.Numeral
import CommandChain.Text.Blank
import CommandChain.Value.Display
/-!
# Conversion between types

A value that already has the wanted type is kept as it is. Otherwise integers come from whole
numbers, truth values and numerals; numbers from integers and numerals; truth values from numbers
and the words for true and false; texts from whatever has a text of its own; and an array of one
element from any other value that is not null.
-/

namespace CommandChain

/-- A value that cannot take a type. -/
structure ConversionError where
  value : String
  fromType : String
  toType : ValueType
deriving DecidableEq

def ConversionError.message (e : ConversionError) : String :=
  "cannot convert value \"" ++ e.value ++ "\" of type " ++ e.fromType ++ " to " ++ e.toType.name

namespace Value

/-- The 64-bit integer a number is equal to, if it is one. -/
def integral? (x : Float) : Option Int64 :=
  (Decimal.integer? x).bind Decimal.int64?

/-- The integer a text denotes: an integer numeral in range, or a number numeral for a whole
number in range. -/
def textToInt? (s : String) : Option Int64 :=
  let s := Text.trim s
  match Decimal.readInt64? s with
  | some i => some i
  | none => (Decimal.readFloat? s).bind integral?

/-- The truth value a text names. -/
def textToBool? (s : String) : Option Bool :=
  match Text.lowerAscii (Text.trim s) with
  | "true" | "$true" => some true
  | "false" | "$false" => some false
  | _ => none

/-- The value of type `target` that `v`, which has another type, converts to. -/
def coerce? (v : Value) (target : ValueType) : Option Value :=
  match target, v with
  | .int, .float x => (integral? x).map .int
  | .int, .bool b => some (.int (if b then 1 else 0))
  | .int, .string s => (textToInt? s).map .int
  | .float, .int i => some (.float (Float.ofInt i.toInt))
  | .float, .string s => (Decimal.readFloat? (Text.trim s)).map .float
  | .bool, .int i => some (.bool (i != 0))
  | .bool, .float x => some (.bool (x != 0))
  | .bool, .string s => (textToBool? s).map .bool
  | .string, .null => none
  | .string, .array _ => none
  | .string, other => some (.string other.display)
  | .array, .null => none
  | .array, other => some (.array [other])
  | _, _ => none

def convertTo (v : Value) (target : ValueType) : Except ConversionError Value :=
  if v.isExactly target then .ok v
  else match coerce? v target with
    | some w => .ok w
    | none => .error ⟨v.display, v.typeName, target⟩

end Value

end CommandChain
