import CommandChain.Decimal.Binary
/-!
# The remainder of a division

The remainder of two doubles after a division that is cut to a whole number. It is exact: both
magnitudes are multiples of a common power of two, and the remainder of the two multiples has no
more significant bits than the divisor.
-/

namespace CommandChain.Decimal

/-- The double `n * 2 ^ scale`, exact where `n` has at most 53 significant bits. -/
def scaled (n : Nat) (scale : Int) : Float :=
  let surplus := Nat.log2 n - 52
  Float.scaleB (Float.ofNat (n / Nat.pow 2 surplus)) (scale + surplus)

def Binary.remainder (a b : Binary) : Float :=
  let scale := min a.exponent b.exponent
  let n := a.significand * Nat.pow 2 (a.exponent - scale).toNat
  let m := b.significand * Nat.pow 2 (b.exponent - scale).toNat
  scaled (n % m) scale

/-- The remainder of a division, with the sign of the dividend. -/
def remainder (x y : Float) : Float :=
  if isNaN x || isNaN y || !isFinite x || y == 0 then Float.ofBits 0x7FF8000000000000
  else if !isFinite y then x
  else
    let r := (Binary.ofFloat x).remainder (Binary.ofFloat y)
    if isNegative x then -r else r

end CommandChain.Decimal
