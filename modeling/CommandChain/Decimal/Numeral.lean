import CommandChain.Text.Ascii
import CommandChain.Decimal.Binary
/-!
# Reading numbers

An integer numeral is an optional sign and decimal digits. A number numeral has digits with an
optional point on either side of which digits may be missing, an optional exponent, or is one of
the words `inf`, `infinity` and `nan` in any case.
-/

namespace CommandChain.Decimal

open CommandChain.Text

/-- The value of a list of decimal digits. -/
def digitsValue (cs : List Char) : Nat :=
  cs.foldl (fun n c => n * 10 + digitValue c) 0

/-- The value of a nonempty list of decimal digits. -/
def natural? (cs : List Char) : Option Nat :=
  if !cs.isEmpty && cs.all isDigit then some (digitsValue cs) else none

/-- A sign, if there is one, and what follows it: whether it is a minus, and the rest. -/
def splitSign : List Char → Bool × List Char
  | '-' :: rest => (true, rest)
  | '+' :: rest => (false, rest)
  | rest => (false, rest)

/-- The integer an integer numeral denotes. -/
def integerNumeral? (cs : List Char) : Option Int :=
  let (negative, rest) := splitSign cs
  (natural? rest).map fun n => if negative then -(n : Int) else n

/-- A 64-bit integer from an integer in its range. -/
def int64? (i : Int) : Option Int64 :=
  if Int64.minValue.toInt ≤ i && i ≤ Int64.maxValue.toInt then some (Int64.ofInt i) else none

/-- The 64-bit integer an integer numeral denotes. -/
def readInt64? (s : String) : Option Int64 :=
  (integerNumeral? s.toList).bind int64?

/-- The double nearest to `digits * 10 ^ scale`. Values that are certain to overflow or to vanish
are settled by their decimal exponent alone. -/
def nearest (digits : Nat) (scale : Int) : Float :=
  if digits == 0 then 0
  else
    let top := scale + (Nat.repr digits).length
    if 400 < top then Float.ofBits 0x7FF0000000000000
    else if top < -400 then 0
    else if 0 ≤ scale then Float.ofScientific digits false scale.toNat
    else Float.ofScientific digits true (-scale).toNat

/-- The exponent behind an exponent mark, or zero where there is no mark. -/
def exponentPart? : List Char → Option Int
  | [] => some 0
  | c :: rest => if c == 'e' || c == 'E' then integerNumeral? rest else none

/-- The number an unsigned numeral with digits denotes. -/
def unsigned? (cs : List Char) : Option Float :=
  let whole := cs.takeWhile isDigit
  let afterWhole := cs.dropWhile isDigit
  let (fraction, rest) := match afterWhole with
    | '.' :: more => (more.takeWhile isDigit, more.dropWhile isDigit)
    | more => ([], more)
  if whole.isEmpty && fraction.isEmpty then none
  else (exponentPart? rest).map fun exponent =>
    nearest (digitsValue (whole ++ fraction)) (exponent - fraction.length)

/-- The number a number numeral denotes, rounded to the nearest double. -/
def readFloat? (s : String) : Option Float :=
  let (negative, rest) := splitSign s.toList
  let value := match String.ofList (rest.map Char.toLower) with
    | "inf" | "infinity" => some (Float.ofBits 0x7FF0000000000000)
    | "nan" => some (Float.ofBits 0x7FF8000000000000)
    | _ => unsigned? rest
  value.map fun x => if negative then -x else x

end CommandChain.Decimal
