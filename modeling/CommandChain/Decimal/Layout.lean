import CommandChain.Decimal.Shortest
/-!
# Writing floating-point numbers

Which digits are written is settled by the shortest decimal; a `Layout` settles where they stand.
-/

namespace CommandChain.Decimal

/-- The digits of a natural number in base ten. -/
def natText (n : Nat) : String :=
  Nat.repr n

/-- The text of an integer: a minus sign for negative ones, then the digits. -/
def intText (i : Int) : String :=
  match i with
  | .ofNat n => natText n
  | .negSucc n => "-" ++ natText (n + 1)

/-- How the digits of a finite number are laid out. -/
structure Layout where
  /-- The choice between two equally near shortest decimals. -/
  tie : Tie
  /-- What follows the digits of a whole number written positionally. -/
  wholeMark : String
  /-- The least decimal exponent that is written positionally. -/
  lowest : Option Int
  /-- The greatest decimal exponent that is written positionally. -/
  highest : Option Int

def Layout.isPositional (layout : Layout) (exponent : Int) : Bool :=
  layout.lowest.all (· ≤ exponent) && layout.highest.all (exponent ≤ ·)

/-- A decimal without an exponent. -/
def Digits.positional (d : Digits) (wholeMark : String) : String :=
  let digits := (natText d.digits).toList
  if 0 ≤ d.scale then
    String.ofList (digits ++ List.replicate d.scale.toNat '0') ++ wholeMark
  else
    let places := (-d.scale).toNat
    let padded := List.replicate (places + 1 - digits.length) '0' ++ digits
    let whole := padded.length - places
    String.ofList (padded.take whole) ++ "." ++ String.ofList (padded.drop whole)

/-- A decimal with one digit before the point and an exponent that always has its sign. -/
def Digits.scientific (d : Digits) (exponent : Int) : String :=
  let digits := (natText d.digits).toList
  let fraction := digits.drop 1
  let point := if fraction.isEmpty then "" else "." ++ String.ofList fraction
  let sign := if 0 ≤ exponent then "+" else "-"
  String.ofList (digits.take 1) ++ point ++ "e" ++ sign ++ natText exponent.natAbs

/-- The text of a positive magnitude or of zero. -/
def Layout.magnitude (layout : Layout) (b : Binary) : String :=
  let d := if b.significand == 0 then ⟨0, 0⟩ else b.shortest layout.tie
  let exponent := d.scale + ((natText d.digits).length - 1 : Int)
  if layout.isPositional exponent then d.positional layout.wholeMark
  else d.scientific exponent

/-- The text of a finite number, with a minus sign where the sign bit is set. -/
def Layout.finite (layout : Layout) (x : Float) : String :=
  (if isNegative x then "-" else "") ++ layout.magnitude (Binary.ofFloat x)

/-- Numbers shown to people are written positionally, whole ones without a point. -/
def plain : Layout :=
  { tie := .up, wholeMark := "", lowest := none, highest := none }

/-- The plain text of any double. -/
def plainText (x : Float) : String :=
  if isNaN x then "NaN"
  else if isFinite x then plain.finite x
  else if isNegative x then "-inf" else "inf"

end CommandChain.Decimal
