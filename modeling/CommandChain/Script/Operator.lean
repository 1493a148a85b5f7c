import CommandChain.Decimal.Numeral
import CommandChain.Decimal.Remainder
import CommandChain.Script.Datum
/-!
# Operators of scripts

Integers are computed in 64 bits, and a result outside them is refused, as is a division by zero.
Numbers of which one is a double are computed as doubles. Texts, arrays, and a text with an integer
can be joined. Data of different types are unequal and in no order.
-/

namespace CommandChain.Script

/-- An operator with two operands, both of which are always evaluated. -/
inductive Operator where
  | add
  | subtract
  | multiply
  | divide
  | remainder
  | equal
  | unequal
  | less
  | lessOrEqual
  | greater
  | greaterOrEqual
deriving DecidableEq

namespace Datum

/-- The number of an integer or a double. -/
def number? : Datum → Option Float
  | .int i => some (Float.ofInt i.toInt)
  | .float x => some x
  | _ => none

mutual
/-- Equality of data. An integer equals the double of the same value. -/
def same : Datum → Datum → Bool
  | .unit, .unit => true
  | .bool a, .bool b => a == b
  | .int a, .int b => a == b
  | .text a, .text b => a == b
  | .array a, .array b => sameItems a b
  | .map a, .map b => sameEntries a b
  | .int a, .float y => Float.ofInt a.toInt == y
  | .float x, .int b => x == Float.ofInt b.toInt
  | .float x, .float y => x == y
  | _, _ => false
/-- Equality of the elements of arrays. -/
def sameItems : List Datum → List Datum → Bool
  | [], [] => true
  | a :: as, b :: bs => same a b && sameItems as bs
  | _, _ => false
/-- Equality of the entries of maps. -/
def sameEntries : List (String × Datum) → List (String × Datum) → Bool
  | [], [] => true
  | (k, a) :: as, (l, b) :: bs => k == l && same a b && sameEntries as bs
  | _, _ => false
end

end Datum

namespace Operator

/-- An operation on integers; `none` where the result is out of range. -/
def onInts (op : Operator) (a b : Int) : Option Datum :=
  match op with
  | .add => (Decimal.int64? (a + b)).map .int
  | .subtract => (Decimal.int64? (a - b)).map .int
  | .multiply => (Decimal.int64? (a * b)).map .int
  | .divide => if b == 0 then none else (Decimal.int64? (a.tdiv b)).map .int
  | .remainder =>
    if b == 0 || (Decimal.int64? (a.tdiv b)).isNone then none
    else (Decimal.int64? (a.tmod b)).map .int
  | .equal => some (.bool (a == b))
  | .unequal => some (.bool (a != b))
  | .less => some (.bool (a < b))
  | .lessOrEqual => some (.bool (a ≤ b))
  | .greater => some (.bool (b < a))
  | .greaterOrEqual => some (.bool (b ≤ a))

/-- An operation on doubles. -/
def onFloats (op : Operator) (x y : Float) : Datum :=
  match op with
  | .add => .float (x + y)
  | .subtract => .float (x - y)
  | .multiply => .float (x * y)
  | .divide => .float (x / y)
  | .remainder => .float (Decimal.remainder x y)
  | .equal => .bool (x == y)
  | .unequal => .bool (x != y)
  | .less => .bool (x < y)
  | .lessOrEqual => .bool (x ≤ y)
  | .greater => .bool (y < x)
  | .greaterOrEqual => .bool (y ≤ x)

/-- The answer of a comparison of two data in a known order; `none` for any other operator. -/
def onOrdering (op : Operator) (o : Ordering) : Option Datum :=
  match op with
  | .equal => some (.bool (o == .eq))
  | .unequal => some (.bool (o != .eq))
  | .less => some (.bool (o == .lt))
  | .lessOrEqual => some (.bool (o != .gt))
  | .greater => some (.bool (o == .gt))
  | .greaterOrEqual => some (.bool (o != .lt))
  | _ => none

/-- The answer of a comparison of data that are in no order. -/
def onUnordered (op : Operator) (equal : Bool) : Option Datum :=
  match op with
  | .equal => some (.bool equal)
  | .unequal => some (.bool !equal)
  | .less | .lessOrEqual | .greater | .greaterOrEqual => some (.bool false)
  | _ => none

/-- The answer of a comparison for equality. -/
def onEquality (op : Operator) (equal : Bool) : Option Datum :=
  match op with
  | .equal => some (.bool equal)
  | .unequal => some (.bool !equal)
  | _ => none

/-- An operation on two data; `none` where it is not defined or has no result. -/
def apply (op : Operator) (a b : Datum) : Option Datum :=
  match a, b with
  | .int i, .int j => op.onInts i.toInt j.toInt
  | .int i, .float y => some (op.onFloats (Float.ofInt i.toInt) y)
  | .float x, .int j => some (op.onFloats x (Float.ofInt j.toInt))
  | .float x, .float y => some (op.onFloats x y)
  | .text s, .text t =>
    if op == .add then some (.text (s ++ t)) else op.onOrdering (Text.compareText s t)
  | .text s, .int j =>
    if op == .add then some (.text (s ++ Decimal.intText j.toInt)) else op.onUnordered false
  | .int i, .text t =>
    if op == .add then some (.text (Decimal.intText i.toInt ++ t)) else op.onUnordered false
  | .array s, .array t =>
    if op == .add then some (.array (s ++ t)) else op.onEquality (Datum.sameItems s t)
  | .map s, .map t => op.onEquality (Datum.sameEntries s t)
  | .bool p, .bool q => op.onOrdering (compare p.toNat q.toNat)
  | .unit, .unit => op.onUnordered true
  | _, _ => op.onUnordered false

end Operator

end CommandChain.Script
