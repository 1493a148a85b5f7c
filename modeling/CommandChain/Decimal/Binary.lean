/-!
# Finite binary floating-point values

A finite double is a sign and a value `significand * 2 ^ exponent`. The decimal texts that read
back to it are those inside its rounding interval, which reaches half-way to each neighbour and
contains its ends exactly when the significand is even.
-/

namespace CommandChain.Decimal

/-- The magnitude `significand * 2 ^ exponent` of a finite double. -/
structure Binary where
  significand : Nat
  exponent : Int
  /-- The gap to the next smaller value is half the gap to the next larger one. -/
  narrowBelow : Bool

/-- The biased exponent of a double, from its bits. -/
def exponentField (x : Float) : Nat :=
  (x.toBits.toNat / Nat.pow 2 52) % Nat.pow 2 11

/-- The stored fraction of a double, from its bits. -/
def fractionField (x : Float) : Nat :=
  x.toBits.toNat % Nat.pow 2 52

/-- Whether the sign bit of a double is set. -/
def isNegative (x : Float) : Bool :=
  x.toBits.toNat / Nat.pow 2 63 == 1

/-- Whether a double is neither infinite nor a NaN. -/
def isFinite (x : Float) : Bool :=
  exponentField x != 2047

def isNaN (x : Float) : Bool :=
  exponentField x == 2047 && fractionField x != 0

def Binary.ofFloat (x : Float) : Binary :=
  let e := exponentField x
  let f := fractionField x
  if e == 0 then ⟨f, -1074, false⟩
  else ⟨Nat.pow 2 52 + f, (e : Int) - 1075, f == 0 && 1 < e⟩

/-- The whole number a finite magnitude is equal to, if it is one. -/
def Binary.whole? (b : Binary) : Option Nat :=
  if 0 ≤ b.exponent then some (b.significand * Nat.pow 2 b.exponent.toNat)
  else
    let unit := Nat.pow 2 (-b.exponent).toNat
    if b.significand % unit == 0 then some (b.significand / unit) else none

/-- The integer a double is equal to, if it is one. -/
def integer? (x : Float) : Option Int :=
  if isFinite x then
    (Binary.ofFloat x).whole?.map fun n => if isNegative x then -(n : Int) else n
  else none

/-- The order of `a * 10 ^ i` and `n * 2 ^ j`. -/
def compareScaled (a : Nat) (i : Int) (n : Nat) (j : Int) : Ordering :=
  compare (a * Nat.pow 10 i.toNat * Nat.pow 2 (-j).toNat)
    (n * Nat.pow 2 j.toNat * Nat.pow 10 (-i).toNat)

/-- Whether `digits * 10 ^ scale` rounds to the magnitude `b`, halves going to the even
significand. -/
def Binary.readsBack (b : Binary) (digits : Nat) (scale : Int) : Bool :=
  let below := if b.narrowBelow then 4 * b.significand - 1 else 4 * b.significand - 2
  let above := 4 * b.significand + 2
  let closed := b.significand % 2 == 0
  let low := compareScaled digits scale below (b.exponent - 2)
  let high := compareScaled digits scale above (b.exponent - 2)
  (low == .gt || (closed && low == .eq)) && (high == .lt || (closed && high == .eq))

end CommandChain.Decimal
