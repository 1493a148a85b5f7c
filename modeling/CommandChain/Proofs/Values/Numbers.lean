import CommandChain.Value.Comparison
/-!
# The order of floating-point numbers

The three tests by which two numbers are ordered are one comparison of what the numbers denote: at
most one of them holds, and none if one of the numbers is a NaN.
-/

namespace CommandChain.Value

open Float.Model (UnpackedFloat)
open Float.Model.UnpackedFloat (Sign)

/-- How two numbers compare. -/
def order? (x y : Float) : Option Ordering :=
  x.toModel.unpack.compare y.toModel.unpack

/-- A double is less than another exactly if it compares as less. -/
theorem lt_iff_order? {x y : Float} : x < y ↔ order? x y = some .lt := by
  change decide (x.toModel.unpack.lt y.toModel.unpack = true) = true ↔ _
  rw [decide_eq_true_iff, UnpackedFloat.lt, beq_iff_eq, order?]

/-- Two doubles are equal exactly if they compare as equal. -/
theorem beq_eq_order? (x y : Float) : (x == y) = (order? x y == some .eq) :=
  rfl

theorem swap_compare_sign (s t : Sign) : (compare s t).swap = compare t s := by
  cases s <;> cases t <;> rfl

theorem swap_compare_magnitude (m n : Nat) (d e : Int) :
    ((compare d e).then (compare m n)).swap = (compare e d).then (compare n m) := by
  rw [Ordering.swap_then, Std.OrientedOrd.eq_swap (a := e), Std.OrientedOrd.eq_swap (a := n)]

/-- Comparing the other way round turns the answer round. -/
theorem swap_compare_unpacked (u v : UnpackedFloat) :
    (u.compare v).map Ordering.swap = v.compare u := by
  cases u with
  | notANumber => cases v <;> rfl
  | infinity s =>
    cases v with
    | infinity t => exact congrArg some (swap_compare_sign s t)
    | notANumber => cases s <;> rfl
    | zero t => cases s <;> rfl
    | finite t n e hn => cases s <;> rfl
  | zero s =>
    cases v with
    | infinity t => cases t <;> rfl
    | notANumber => rfl
    | zero t => rfl
    | finite t n e hn => cases t <;> rfl
  | finite s m d hm =>
    cases v with
    | infinity t => cases s <;> cases t <;> rfl
    | notANumber => cases s <;> rfl
    | zero t => cases s <;> rfl
    | finite t n e hn =>
      have hswap := swap_compare_magnitude m n d e
      cases s <;> cases t
      case positive.positive => exact congrArg some hswap
      case negative.negative => exact congrArg (fun o => some (Ordering.swap o)) hswap
      case positive.negative => rfl
      case negative.positive => rfl

/-- Exchanging two doubles exchanges how they compare. -/
theorem swap_order? (x y : Float) : (order? x y).map Ordering.swap = order? y x :=
  swap_compare_unpacked _ _

/-- The comparison of doubles that values use is the one of their numbers. -/
theorem compareFloat?_eq_order? (x y : Float) : compareFloat? x y = order? x y := by
  rw [compareFloat?, beq_eq_order?]
  simp only [lt_iff_order?]
  rw [← swap_order? x y]
  cases order? x y with
  | none => rfl
  | some o => cases o <;> rfl

end CommandChain.Value
