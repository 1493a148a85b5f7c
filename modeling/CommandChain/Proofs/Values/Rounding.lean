import CommandChain.Proofs.Values.Numbers
import Mathlib.Tactic.Linarith
import Mathlib.Tactic.Ring
import Mathlib.Tactic.SplitIfs
/-!
# Integers as floating-point numbers

An integer becomes the nearest double, halves going to the even significand. The conversion shifts
the integer to 53 significant bits and keeps of the bits that it drops only whether the first is set
and whether any behind it is. That is enough to round as if all of them were at hand, and rounding
never turns the order of two integers round, though it can make them equal.
-/

namespace CommandChain.Rounding

open Float.Model (UnpackedFloat Format totalExponent)
open Float.Model.UnpackedFloat

variable {m n d k : Nat}

/-! ## Division to the nearest whole number -/

/-- The whole number nearest to `n / d`, a half going to the even one. -/
def halfEven (n d : Nat) : Nat :=
  if 2 * (n % d) < d then n / d
  else if 2 * (n % d) = d then n / d + n / d % 2
  else n / d + 1

/-- Rounding does not go below the whole part. -/
theorem div_le_halfEven (n d : Nat) : n / d ≤ halfEven n d := by
  unfold halfEven
  split_ifs <;> omega

/-- Rounding goes up by one at most. -/
theorem halfEven_le_div_succ (n d : Nat) : halfEven n d ≤ n / d + 1 := by
  unfold halfEven
  split_ifs <;> omega

/-- A whole quotient is not rounded. -/
theorem halfEven_mul_left (m : Nat) (hd : 0 < d) : halfEven (m * d) d = m := by
  rw [halfEven, Nat.mul_mod_left, if_pos (by omega), Nat.mul_div_cancel m hd]

theorem halfEven_one (n : Nat) : halfEven n 1 = n := by
  have hself := halfEven_mul_left n Nat.one_pos
  rwa [Nat.mul_one] at hself

/-- Only the ratio counts. -/
theorem halfEven_mul_right (hk : 0 < k) : halfEven (n * k) (d * k) = halfEven n d := by
  have hless : 2 * (n % d * k) < d * k ↔ 2 * (n % d) < d := by
    rw [← Nat.mul_assoc, Nat.mul_lt_mul_right hk]
  have hequal : 2 * (n % d * k) = d * k ↔ 2 * (n % d) = d := by
    rw [← Nat.mul_assoc, Nat.mul_left_inj (by omega)]
  simp only [halfEven, Nat.mul_mod_mul_right, Nat.mul_div_mul_right _ _ hk, hless, hequal]

/-- Rounding keeps the order of dividends. -/
theorem halfEven_mono (h : m ≤ n) : halfEven m d ≤ halfEven n d := by
  rcases Nat.lt_or_eq_of_le (Nat.div_le_div_right (c := d) h) with hlt | heq
  · calc halfEven m d ≤ m / d + 1 := halfEven_le_div_succ m d
      _ ≤ n / d := hlt
      _ ≤ halfEven n d := div_le_halfEven n d
  · have hm := Nat.div_add_mod m d
    have hn := Nat.div_add_mod n d
    rw [heq] at hm
    have hrest : m % d ≤ n % d := by omega
    unfold halfEven
    rw [heq]
    split_ifs <;> omega

/-! ## The bits that are kept -/

/-- What a mantissa with its two residual bits keeps of the fraction `n / d`: its whole part, whether
the rest is at least a half, and whether it is something else than nothing or a half. -/
structure Cut (em : ExtendedMantissa) (n d : Nat) : Prop where
  mantissa : em.mantissa = n / d
  roundBit : em.roundBit = true ↔ d ≤ 2 * (n % d)
  stickyBit : em.stickyBit = true ↔ n % d ≠ 0 ∧ 2 * (n % d) ≠ d

/-- An exact mantissa keeps all of a whole number. -/
theorem cut_exact (m : Nat) : Cut (ExtendedMantissa.ofMantissaAndAccuracy m .exact) m 1 where
  mantissa := (Nat.div_one m).symm
  roundBit := by simp [ExtendedMantissa.ofMantissaAndAccuracy, Nat.mod_one]
  stickyBit := by simp [ExtendedMantissa.ofMantissaAndAccuracy, Nat.mod_one]

variable {em : ExtendedMantissa}

/-- A shift by one bit halves the fraction. The bit shifted out is the new round bit, and what was
below the half before is now below a quarter. -/
theorem Cut.shiftRightOne (hd : 0 < d) (h : Cut em n d) : Cut em.shiftRightOne n (d * 2) := by
  have hmod : n % (d * 2) = n % d + d * (n / d % 2) := Nat.mod_mul
  have hrest : n % d < d := Nat.mod_lt n hd
  constructor
  case mantissa =>
    rw [ExtendedMantissa.shiftRightOne, h.mantissa, Nat.div_div_eq_div_mul]
  case roundBit =>
    rw [ExtendedMantissa.shiftRightOne, h.mantissa, bne_iff_ne, hmod]
    rcases Nat.mod_two_eq_zero_or_one (n / d) with hbit | hbit <;> rw [hbit] <;> omega
  case stickyBit =>
    rw [ExtendedMantissa.shiftRightOne, Bool.or_eq_true, h.roundBit, h.stickyBit, hmod]
    rcases Nat.mod_two_eq_zero_or_one (n / d) with hbit | hbit <;> rw [hbit] <;> omega

/-- Shifting a mantissa halves what it keeps of the fraction, any number of times. -/
theorem Cut.shiftRight (h : Cut em n 1) (k : Nat) : Cut (em >>> k) n (2 ^ k) := by
  change Cut (k.repeat ExtendedMantissa.shiftRightOne em) n (2 ^ k)
  induction k with
  | zero => exact h
  | succ k ih =>
    rw [Nat.repeat, Nat.pow_succ]
    exact ih.shiftRightOne (Nat.two_pow_pos k)

/-- The two bits suffice to round to the nearest. -/
theorem Cut.roundedMantissa_eq (h : Cut em n d) : em.roundedMantissa = halfEven n d := by
  obtain ⟨mantissa, roundBit, stickyBit⟩ := em
  obtain ⟨hmantissa, hround, hsticky⟩ := h
  dsimp only at hmantissa hround hsticky
  subst hmantissa
  cases roundBit <;> cases stickyBit <;>
    simp only [Bool.false_eq_true, false_iff, true_iff, not_le] at hround hsticky <;>
    simp only [ExtendedMantissa.roundedMantissa, ExtendedMantissa.accuracy,
      Accuracy.roundToNearestEven, halfEven]
  case false.false => rw [if_pos hround]
  case false.true => rw [if_pos hround]
  case true.false => rw [if_neg (by omega), if_pos (by omega)]
  case true.true => rw [if_neg (by omega), if_neg hsticky.2]

/-! ## The nearest double -/

/-- How far apart doubles are from the power of two below `n` up to the next one. -/
def spacing (n : Nat) : Nat :=
  2 ^ (n.log2 - 52)

/-- The multiple of its spacing that is nearest to a natural number. -/
def nearestNat (n : Nat) : Nat :=
  halfEven n (spacing n) * spacing n

/-- The double nearest to an integer, as an integer. -/
def nearest (a : Int) : Int :=
  a.sign * nearestNat a.natAbs

/-- Doubles are apart from each other. -/
theorem spacing_pos (n : Nat) : 0 < spacing n :=
  Nat.two_pow_pos _

/-- Below 2 ^ 53 doubles are not further apart than integers. -/
theorem spacing_eq_one (hn : n < 2 ^ 53) : spacing n = 1 := by
  have hlog : n.log2 ≤ 52 := by
    rcases Nat.eq_zero_or_pos n with rfl | hpos
    · exact Nat.zero_le _
    · exact Nat.le_of_lt_succ ((Nat.log2_lt hpos.ne').mpr hn)
  rw [spacing, Nat.sub_eq_zero_of_le hlog, Nat.pow_zero]

/-- A number below 2 ^ 53 is its own nearest double. -/
theorem nearestNat_of_lt (hn : n < 2 ^ 53) : nearestNat n = n := by
  rw [nearestNat, spacing_eq_one hn, halfEven_one, Nat.mul_one]

/-- A number with at least 53 bits keeps 53 of them, or one more if rounding carries. -/
theorem halfEven_spacing_mem (hlog : 52 ≤ n.log2) :
    2 ^ 52 ≤ halfEven n (spacing n) ∧ halfEven n (spacing n) ≤ 2 ^ 53 := by
  have hpos : n ≠ 0 := by
    rintro rfl
    exact absurd hlog (by decide)
  have hlow : 2 ^ 52 * spacing n = 2 ^ n.log2 := by
    rw [spacing, ← Nat.pow_add, Nat.add_sub_cancel' hlog]
  have hhigh : 2 ^ 53 * spacing n = 2 ^ (n.log2 + 1) := by
    calc 2 ^ 53 * spacing n = 2 ^ 52 * spacing n * 2 := by ring
      _ = 2 ^ (n.log2 + 1) := by rw [hlow, Nat.pow_succ]
  have hquotient_low : 2 ^ 52 ≤ n / spacing n := by
    rw [Nat.le_div_iff_mul_le (spacing_pos n), hlow]
    exact Nat.log2_self_le hpos
  have hquotient_high : n / spacing n < 2 ^ 53 := by
    rw [Nat.div_lt_iff_lt_mul (spacing_pos n), hhigh]
    exact Nat.lt_log2_self
  exact ⟨hquotient_low.trans (div_le_halfEven _ _),
    (halfEven_le_div_succ _ _).trans hquotient_high⟩

/-- The nearest double of a number does not go below the power of two below it. -/
theorem two_pow_log2_le_nearestNat (hn : n ≠ 0) : 2 ^ n.log2 ≤ nearestNat n := by
  rcases Nat.lt_or_ge n (2 ^ 53) with hsmall | hlarge
  · rw [nearestNat_of_lt hsmall]
    exact Nat.log2_self_le hn
  · have hlog : 52 ≤ n.log2 := Nat.le_of_lt ((Nat.le_log2 hn).mpr hlarge)
    calc 2 ^ n.log2 = 2 ^ 52 * spacing n := by
          rw [spacing, ← Nat.pow_add, Nat.add_sub_cancel' hlog]
      _ ≤ nearestNat n := Nat.mul_le_mul_right _ (halfEven_spacing_mem hlog).1

/-- The nearest double of a number does not go beyond the next power of two. -/
theorem nearestNat_le_two_pow (n : Nat) : nearestNat n ≤ 2 ^ (n.log2 + 1) := by
  rcases Nat.lt_or_ge n (2 ^ 53) with hsmall | hlarge
  · rw [nearestNat_of_lt hsmall]
    exact Nat.le_of_lt Nat.lt_log2_self
  · have hlog : 52 ≤ n.log2 := Nat.le_of_lt ((Nat.le_log2 (by omega)).mpr hlarge)
    calc nearestNat n ≤ 2 ^ 53 * spacing n := Nat.mul_le_mul_right _ (halfEven_spacing_mem hlog).2
      _ = 2 ^ (n.log2 + 1) := by
          rw [spacing, ← Nat.pow_add]
          congr 1
          omega

/-- Between two powers of two the spacing is the same, and rounding crosses no power of two. -/
theorem nearestNat_mono (h : m ≤ n) : nearestNat m ≤ nearestNat n := by
  rcases Nat.eq_zero_or_pos m with rfl | hm
  · rw [nearestNat_of_lt (by decide)]
    exact Nat.zero_le _
  · have hn : n ≠ 0 := by omega
    have hlog : m.log2 ≤ n.log2 := (Nat.le_log2 hn).mpr ((Nat.log2_self_le hm.ne').trans h)
    rcases Nat.lt_or_eq_of_le hlog with hless | hequal
    · calc nearestNat m ≤ 2 ^ (m.log2 + 1) := nearestNat_le_two_pow m
        _ ≤ 2 ^ n.log2 := Nat.pow_le_pow_right (by decide) hless
        _ ≤ nearestNat n := two_pow_log2_le_nearestNat hn
    · have hspacing : spacing m = spacing n := by rw [spacing, spacing, hequal]
      rw [nearestNat, nearestNat, hspacing]
      exact Nat.mul_le_mul_right _ (halfEven_mono h)

theorem nearest_natCast (n : Nat) : nearest n = nearestNat n := by
  rcases Nat.eq_zero_or_pos n with rfl | hn
  · rfl
  · rw [nearest, Int.sign_natCast_of_ne_zero hn.ne', Int.one_mul, Int.natAbs_natCast]

/-- The nearest double of a negative is the negative of the nearest double. -/
theorem nearest_neg (a : Int) : nearest (-a) = -nearest a := by
  rw [nearest, nearest, Int.sign_neg, Int.natAbs_neg, Int.neg_mul]

/-- Integers below 2 ^ 53 in magnitude are doubles themselves. -/
theorem nearest_of_natAbs_lt {a : Int} (ha : a.natAbs < 2 ^ 53) : nearest a = a := by
  rw [nearest, nearestNat_of_lt ha, Int.sign_mul_natAbs]

/-- Nearest doubles keep the order of integers. -/
theorem nearest_mono {a b : Int} (h : a ≤ b) : nearest a ≤ nearest b := by
  have hnonneg (n : Nat) : 0 ≤ nearest n := by
    rw [nearest_natCast]
    exact Int.natCast_nonneg _
  obtain ⟨m, rfl | rfl⟩ := a.eq_nat_or_neg <;> obtain ⟨n, rfl | rfl⟩ := b.eq_nat_or_neg
  · rw [nearest_natCast, nearest_natCast]
    exact_mod_cast nearestNat_mono (by omega)
  · obtain ⟨rfl, rfl⟩ : m = 0 ∧ n = 0 := by omega
    exact Int.le_refl _
  · rw [nearest_neg]
    linarith [hnonneg m, hnonneg n]
  · rw [nearest_neg, nearest_neg, nearest_natCast, nearest_natCast]
    have hmono : nearestNat n ≤ nearestNat m := nearestNat_mono (by omega)
    omega

/-- Rounding keeps the order of integers that it keeps apart. -/
theorem nearest_lt_iff {i j : Int} (hapart : nearest i = nearest j ↔ i = j) :
    nearest i < nearest j ↔ i < j := by
  constructor
  · intro h
    by_contra hle
    exact absurd (nearest_mono (not_lt.mp hle)) (not_le.mpr h)
  · intro h
    exact lt_of_le_of_ne (nearest_mono h.le) fun hsame => h.ne (hapart.mp hsame)

end CommandChain.Rounding
