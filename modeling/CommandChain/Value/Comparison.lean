import CommandChain.Decimal.Numeral
import CommandChain.Text.Blank
import CommandChain.Text.Wildcard
import CommandChain.Value.Display
/-!
# Loose comparison of values

Filters and sorting compare values loosely: numbers compare across integers and floating point, a
text on the left compares with the text of whatever stands on the right, and a number on the left
compares with a text that reads as a number.
-/

namespace CommandChain.Value

/-- The number that a value shows, if its text without surrounding white space is a numeral. -/
def readNumber? (v : Value) : Option Float :=
  Decimal.readFloat? (Text.trim v.display)

/-- Loose equality. Texts agree up to ASCII case. -/
def looseEq (a b : Value) : Bool :=
  match a with
  | .string s => Text.sameName s b.display
  | _ =>
    match a.asFloat, b.asFloat with
    | some x, some y => x == y
    | some x, none => b.readNumber?.any (x == ·)
    | none, _ => a == b

/-- The order of two numbers; a NaN is in no order with anything. -/
def compareFloat? (x y : Float) : Option Ordering :=
  if x < y then some .lt
  else if x == y then some .eq
  else if y < x then some .gt
  else none

/-- The order of two truth values, false first. -/
def compareBool : Bool → Bool → Ordering
  | false, true => .lt
  | true, false => .gt
  | _, _ => .eq

/-- The order of two values, where they have one. Null comes before everything else, and texts are
compared in lower case. -/
def compare? (a b : Value) : Option Ordering :=
  match a, b with
  | .null, .null => some .eq
  | .null, _ => some .lt
  | _, .null => some .gt
  | .bool p, .bool q => some (compareBool p q)
  | .string s, b => some (Text.compareChars (Text.lowerChars s) (Text.lowerChars b.display))
  | a, b =>
    match a.asFloat, b.asFloat with
    | some x, some y => compareFloat? x y
    | some x, none =>
      (b.asText.bind fun s => Decimal.readFloat? (Text.trim s)).bind (compareFloat? x)
    | none, _ => none

/-- Whether the text of a value belongs to a wildcard pattern. -/
def like (v : Value) (pattern : String) : Bool :=
  Text.Wildcard.isMatch pattern v.display

end CommandChain.Value
