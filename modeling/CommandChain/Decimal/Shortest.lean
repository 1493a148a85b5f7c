import CommandChain.Decimal.Binary
/-!
# The fewest digits that read back

The shortest decimal of a magnitude is the one with the fewest digits inside its rounding interval,
and of two with equally many digits the nearer. A tie between two equally near ones is settled by
the format that asks.
-/

namespace CommandChain.Decimal

/-- The decimal `digits * 10 ^ scale`. -/
structure Digits where
  digits : Nat
  scale : Int
deriving DecidableEq

/-- How two equally near candidates are told apart. -/
inductive Tie where
  | up
  | toEven
deriving DecidableEq

/-- The least power of ten above the magnitude, searched upwards from an estimate. -/
def Binary.magnitude (b : Binary) : Int :=
  let bits := (Nat.log2 b.significand : Int) + b.exponent
  let estimate := (bits * 30103).fdiv 100000 - 1
  (List.range 5).foldr (fun (k : Nat) (found : Int) =>
    if compareScaled 1 (estimate + k) b.significand b.exponent == .gt then estimate + k else found)
    (estimate + 5)

/-- The whole part of the magnitude divided by `10 ^ scale`. -/
def Binary.floorAt (b : Binary) (scale : Int) : Nat :=
  (b.significand * Nat.pow 2 b.exponent.toNat * Nat.pow 10 (-scale).toNat)
    / (Nat.pow 2 (-b.exponent).toNat * Nat.pow 10 scale.toNat)

/-- The candidate on the grid of `10 ^ scale` that reads back, if one of the magnitude's two
neighbours there does. -/
def Binary.candidate? (b : Binary) (tie : Tie) (scale : Int) : Option Digits :=
  let low := b.floorAt scale
  match b.readsBack low scale, b.readsBack (low + 1) scale with
  | true, true =>
    match compareScaled (2 * low + 1) scale (2 * b.significand) b.exponent with
    | .gt => some ⟨low, scale⟩
    | .lt => some ⟨low + 1, scale⟩
    | .eq => match tie with
      | .up => some ⟨low + 1, scale⟩
      | .toEven => some ⟨if low % 2 == 0 then low else low + 1, scale⟩
  | true, false => some ⟨low, scale⟩
  | false, true => some ⟨low + 1, scale⟩
  | false, false => none

/-- Moves trailing zeros of the digits into the scale; the fuel bounds their number. -/
def Digits.strip : Nat → Digits → Digits
  | 0, d => d
  | fuel + 1, d =>
    if d.digits != 0 && d.digits % 10 == 0 then strip fuel ⟨d.digits / 10, d.scale + 1⟩ else d

/-- The magnitude itself, with all its digits. -/
def Binary.exact (b : Binary) : Digits :=
  ⟨b.significand * Nat.pow 2 b.exponent.toNat * Nat.pow 5 (-b.exponent).toNat,
    -((-b.exponent).toNat : Int)⟩

/-- The shortest decimal of a positive magnitude. Seventeen digits always suffice. -/
def Binary.shortest (b : Binary) (tie : Tie) : Digits :=
  let top := b.magnitude
  let found := (List.range 17).findSome? fun (k : Nat) => b.candidate? tie (top - 1 - (k : Int))
  (found.getD b.exact).strip 400

end CommandChain.Decimal
