import CommandChain.Decimal.Numeral
import CommandChain.Json.Basic
/-!
# Reading JSON numbers

A number's digits are collected in a 64-bit word. Digits that no longer fit are dropped, those of
the whole part raising the scale by one each. A number with fraction or exponent, and a whole
number that does not fit, becomes a double: the word is rounded to a double and then scaled by
powers of ten in floating point.
-/

namespace CommandChain.Json

open CommandChain.Text

/-- The greatest value of the word that collects digits. -/
def wordMax : Nat := Nat.pow 2 64 - 1

/-- Collects digits in a word that starts as `word`, up to the first that does not fit; returns
the word and the digits that were left. -/
def collect (word : Nat) : List Char → Nat × List Char
  | [] => (word, [])
  | c :: rest =>
    let next := word * 10 + digitValue c
    if wordMax < next then (word, c :: rest) else collect next rest

/-- A power of ten as a double. -/
def tenTo (n : Nat) : Float :=
  Float.ofScientific 1 false n

/-- Scales a double by `10 ^ scale` in steps of at most 308. A result too large for a double is an
infinity. The fuel bounds the number of steps; a few suffice for any double to vanish. -/
def scaleBy : Nat → Float → Int → Float
  | 0, _, _ => 0
  | fuel + 1, x, scale =>
    if scale.natAbs ≤ 308 then
      if 0 ≤ scale then x * tenTo scale.toNat else x / tenTo scale.natAbs
    else if x == 0 then x
    else if 0 ≤ scale then Float.ofBits 0x7FF0000000000000
    else scaleBy fuel (x / tenTo 308) (scale + 308)

/-- The parts of a number in its grammar: a minus sign, the digits before the point, those behind
it, and the exponent. A missing part is empty or absent. -/
structure NumberText where
  negative : Bool
  whole : List Char
  fraction : Option (List Char)
  exponent : Option (Bool × List Char)

/-- The digits at the start of a text, at least one, and what follows. -/
def digits? (cs : List Char) : Option (List Char × List Char) :=
  let run := cs.takeWhile isDigit
  if run.isEmpty then none else some (run, cs.dropWhile isDigit)

/-- The fraction at the start of a text, if a point stands there. -/
def fraction? : List Char → Option (Option (List Char) × List Char)
  | '.' :: rest => (digits? rest).map fun (run, rest) => (some run, rest)
  | rest => some (none, rest)

/-- The exponent at the start of a text, if an exponent mark stands there: whether it is
negative, and its digits. -/
def exponent? : List Char → Option (Option (Bool × List Char) × List Char)
  | c :: rest =>
    if c == 'e' || c == 'E' then
      let (negative, rest) := Decimal.splitSign rest
      (digits? rest).map fun (run, rest) => (some (negative, run), rest)
    else some (none, c :: rest)
  | [] => some (none, [])

/-- The number text at the start of a text. No further digit follows a leading zero. -/
def numberText? (cs : List Char) : Option (NumberText × List Char) := do
  let (negative, cs) := match cs with
    | '-' :: rest => (true, rest)
    | rest => (false, rest)
  let (whole, cs) ← match cs with
    | '0' :: rest => if rest.head?.any isDigit then none else some (['0'], rest)
    | rest => digits? rest
  let (fraction, cs) ← fraction? cs
  let (exponent, cs) ← exponent? cs
  return (⟨negative, whole, fraction, exponent⟩, cs)

/-- The value of the digits as a double, signed. -/
def NumberText.double (n : NumberText) : Float :=
  let (word, left) := collect 0 n.whole
  let fraction := n.fraction.getD []
  let (word, unread) := collect word fraction
  let scale : Int := left.length - (fraction.length - unread.length : Nat)
  let magnitude := match n.exponent with
    | none => scaleBy 8 (Float.ofNat word) scale
    | some (down, digits) =>
      let e := Decimal.digitsValue digits
      if Nat.pow 2 31 ≤ e then
        if word != 0 && !down then Float.ofBits 0x7FF0000000000000 else 0
      else scaleBy 8 (Float.ofNat word) (if down then scale - e else scale + e)
  if n.negative then -magnitude else magnitude

/-- The number a number text denotes. A negative zero is a double. -/
def NumberText.json (n : NumberText) : Json :=
  let value := Decimal.digitsValue n.whole
  if n.fraction.isNone && n.exponent.isNone then
    if n.negative then
      if value != 0 && value ≤ Nat.pow 2 63 then .int (-(value : Int)) else .float n.double
    else if value ≤ wordMax then .int value else .float n.double
  else .float n.double

end CommandChain.Json
