import CommandChain.Proofs.Values.Rounding
import Mathlib
/-!
# The double of an integer

What the conversion of an integer to a double does, traced through shifting, rounding, scaling and
packing: it yields the nearest double, with all significant bits in place.
-/

namespace CommandChain.Rounding

open Float.Model (UnpackedFloat Format totalExponent)
open Float.Model.UnpackedFloat

variable {s t : Sign} {n k m j : Nat} {u v : UnpackedFloat}

/-- A number taken apart is `n` with sign `s`, and no significant bit is missing. -/
inductive Denotes (s : Sign) (n : Nat) : UnpackedFloat → Prop
  | zero (hn : n = 0) : Denotes s n (.zero s)
  | normal {m : Nat} {e : Int} (hm : 0 < m) (j : Nat) (hlow : 2 ^ 52 ≤ m) (hhigh : m < 2 ^ 53)
      (hsmall : j < 1000) (he : e = (j : Int) - 52) (hvalue : m * 2 ^ j = n * 2 ^ 52) :
      Denotes s n (.finite s m e hm)

/-- The negative of a double that denotes a number denotes the number with the other sign. -/
theorem Denotes.neg (h : Denotes s n u) : Denotes (-s) n u.neg := by
  cases h with
  | zero hn => exact .zero hn
  | normal hm j hlow hhigh hsmall he hvalue => exact .normal hm j hlow hhigh hsmall he hvalue

/-! ## Order -/

/-- Two pairs are in the same order if each is less, either way round, exactly where the other is.
-/
theorem compare_congr {α β : Type} [LinearOrder α] [LinearOrder β] {a b : α} {c d : β}
    (hlt : a < b ↔ c < d) (hgt : b < a ↔ d < c) : compare a b = compare c d := by
  rcases lt_trichotomy a b with h | h | h
  · rw [compare_lt_iff_lt.mpr h, compare_lt_iff_lt.mpr (hlt.mp h)]
  · have heq : c = d := le_antisymm (not_lt.mp fun h' => (hgt.mpr h').ne' h)
      (not_lt.mp fun h' => (hlt.mpr h').ne h)
    rw [compare_eq_iff_eq.mpr h, compare_eq_iff_eq.mpr heq]
  · rw [compare_gt_iff_gt.mpr h, compare_gt_iff_gt.mpr (hgt.mp h)]

/-- Mantissas that scale to integers compare as these do. -/
theorem compare_of_scaled {m₁ m₂ p q : Nat} (hp : 0 < p) (hq : 0 < q) (hn : m₁ * p = n * q)
    (hk : m₂ * p = k * q) : compare m₁ m₂ = compare (n : Int) k := by
  apply compare_congr
  · rw [Int.ofNat_lt, ← Nat.mul_lt_mul_right hp, hn, hk, Nat.mul_lt_mul_right hq]
  · rw [Int.ofNat_lt, ← Nat.mul_lt_mul_right hp, hn, hk, Nat.mul_lt_mul_right hq]

/-- With all significant bits in place the smaller exponent belongs to the smaller number. -/
theorem lt_of_exponent_lt {m₁ m₂ j₁ j₂ : Nat} (hhigh : m₁ < 2 ^ 53) (hlow : 2 ^ 52 ≤ m₂)
    (hj : j₁ < j₂) (hn : m₁ * 2 ^ j₁ = n * 2 ^ 52) (hk : m₂ * 2 ^ j₂ = k * 2 ^ 52) : n < k := by
  have hscaled : n * 2 ^ 52 < k * 2 ^ 52 := by
    calc n * 2 ^ 52 = m₁ * 2 ^ j₁ := hn.symm
      _ < 2 ^ 53 * 2 ^ j₁ := Nat.mul_lt_mul_of_pos_right hhigh (Nat.two_pow_pos j₁)
      _ = 2 ^ 52 * 2 ^ (j₁ + 1) := by ring
      _ ≤ m₂ * 2 ^ j₂ := Nat.mul_le_mul hlow (Nat.pow_le_pow_right (by decide) hj)
      _ = k * 2 ^ 52 := hk
  exact Nat.lt_of_mul_lt_mul_right hscaled

/-- The exponents decide, and between equal exponents the mantissas. -/
theorem compare_normal {m₁ m₂ j₁ j₂ : Nat} (hlow₁ : 2 ^ 52 ≤ m₁) (hhigh₁ : m₁ < 2 ^ 53)
    (hlow₂ : 2 ^ 52 ≤ m₂) (hhigh₂ : m₂ < 2 ^ 53) (hn : m₁ * 2 ^ j₁ = n * 2 ^ 52)
    (hk : m₂ * 2 ^ j₂ = k * 2 ^ 52) :
    (compare ((j₁ : Int) - 52) ((j₂ : Int) - 52)).then (compare m₁ m₂) = compare (n : Int) k := by
  rcases Nat.lt_trichotomy j₁ j₂ with hj | rfl | hj
  · have hless : (n : Int) < k := Int.ofNat_lt.mpr (lt_of_exponent_lt hhigh₁ hlow₂ hj hn hk)
    have hexponent : (j₁ : Int) - 52 < (j₂ : Int) - 52 := by omega
    rw [compare_lt_iff_lt.mpr hless, compare_lt_iff_lt.mpr hexponent]
    rfl
  · rw [compare_of_scaled (Nat.two_pow_pos _) (Nat.two_pow_pos _) hn hk, compare_eq_iff_eq.mpr rfl]
    rfl
  · have hmore : (k : Int) < n := Int.ofNat_lt.mpr (lt_of_exponent_lt hhigh₂ hlow₁ hj hk hn)
    have hexponent : (j₂ : Int) - 52 < (j₁ : Int) - 52 := by omega
    rw [compare_gt_iff_gt.mpr hmore, compare_gt_iff_gt.mpr hexponent]
    rfl

/-- A number that a positive mantissa scales to is positive. -/
theorem pos_of_scaled (hm : 0 < m) (hvalue : m * 2 ^ j = n * 2 ^ 52) : 0 < n := by
  have hscaled : 0 < n * 2 ^ 52 := by
    rw [← hvalue]
    exact Nat.mul_pos hm (Nat.two_pow_pos j)
  exact Nat.pos_of_mul_pos_right hscaled

/-- Zero has no sign as an integer. -/
theorem apply_zero (s : Sign) : s.apply 0 = 0 := by
  cases s <;> rfl

/-- Numbers taken apart are compared as the integers they denote. -/
theorem Denotes.compare_eq (hu : Denotes s n u) (hv : Denotes t k v) :
    u.compare v = some (compare (s.apply n) (t.apply k)) := by
  cases hu with
  | zero hn =>
    subst hn
    rw [Nat.cast_zero, apply_zero]
    cases hv with
    | zero hk =>
      subst hk
      rw [Nat.cast_zero, apply_zero]
      rfl
    | normal hm j _ _ _ _ hvalue =>
      have hk := pos_of_scaled hm hvalue
      cases t
      case positive => exact congrArg some (compare_lt_iff_lt.mpr (by simpa [Sign.apply])).symm
      case negative => exact congrArg some (compare_gt_iff_gt.mpr (by simpa [Sign.apply])).symm
  | normal hm i hlow hhigh _ he hvalue =>
    have hn := pos_of_scaled hm hvalue
    cases hv with
    | zero hk =>
      subst hk
      rw [Nat.cast_zero, apply_zero]
      cases s
      case positive => exact congrArg some (compare_gt_iff_gt.mpr (by simpa [Sign.apply])).symm
      case negative => exact congrArg some (compare_lt_iff_lt.mpr (by simpa [Sign.apply])).symm
    | normal hm' j hlow' hhigh' _ he' hvalue' =>
      have hk := pos_of_scaled hm' hvalue'
      have horder := compare_normal hlow hhigh hlow' hhigh' hvalue hvalue'
      subst he he'
      cases s <;> cases t
      case positive.positive => exact congrArg some horder
      case negative.negative =>
        refine congrArg some ?_
        rw [horder, ← Std.OrientedOrd.eq_swap]
        exact compare_congr Int.neg_lt_neg_iff.symm Int.neg_lt_neg_iff.symm
      case positive.negative =>
        exact congrArg some (compare_gt_iff_gt.mpr (by simp only [Sign.apply]; omega)).symm
      case negative.positive =>
        exact congrArg some (compare_lt_iff_lt.mpr (by simp only [Sign.apply]; omega)).symm

/-! ## Packing -/

/-- A mantissa in its place is the leading one and the bits that are stored. -/
theorem toNat_stored (hlow : 2 ^ 52 ≤ m) (hhigh : m < 2 ^ 53) :
    (1#1 ++ BitVec.ofNat 52 m).toNat = m := by
  have hstored : (BitVec.ofNat 52 m).toNat = m - 2 ^ 52 := by
    rw [BitVec.toNat_ofNat]
    omega
  rw [BitVec.toNat_append, hstored, ← Nat.shiftLeft_add_eq_or_of_lt (by omega)]
  exact Nat.add_sub_cancel' hlow

/-- A mantissa between these powers of two has 53 bits. -/
theorem log2_eq (hlow : 2 ^ 52 ≤ m) (hhigh : m < 2 ^ 53) : m.log2 = 52 := by
  have hm : m ≠ 0 := by omega
  have hle : 52 ≤ m.log2 := (Nat.le_log2 hm).mpr hlow
  have hlt : m.log2 < 53 := (Nat.log2_lt hm).mpr hhigh
  omega

/-- The exponent of a normal double, with its bias added. -/
theorem biasedExponent_eq {e : Int} (he : e = (j : Int) - 52) :
    (e + Format.binary64.exponentBias + Format.binary64.mantissaBitsWithoutImplicit).toNat
      = j + 1023 := by
  have hbias : (Format.binary64.exponentBias : Int) = 1023 := rfl
  have hbits : (Format.binary64.mantissaBitsWithoutImplicit : Int) = 52 := rfl
  rw [hbias, he, hbits]
  omega

/-- What is stored of a mantissa in its place, below the largest exponent. -/
theorem pack_finite {e : Int} (hm : 0 < m) (hlow : 2 ^ 52 ≤ m) (hhigh : m < 2 ^ 53)
    (hsmall : j < 1024) (he : e = (j : Int) - 52) :
    UnpackedFloat.pack .binary64 (.finite s m e hm)
      = packComponents .binary64 s (BitVec.ofNat 11 (j + 1023)) (BitVec.ofNat 52 m) := by
  rw [UnpackedFloat.pack]
  simp only [biasedExponent_eq he, log2_eq hlow hhigh]
  rw [if_neg (by omega), if_pos (by decide)]

/-- From the largest exponent on a number is packed as infinity. -/
theorem pack_overflow {e : Int} (hm : 0 < m) (hlarge : 1024 ≤ j) (he : e = (j : Int) - 52) :
    UnpackedFloat.pack .binary64 (.finite s m e hm) = packedInfinity .binary64 s := by
  rw [UnpackedFloat.pack]
  simp only [biasedExponent_eq he]
  rw [if_pos (by omega)]

/-- Packing keeps a mantissa in its place. The leading one is not stored and is put back. -/
theorem unpack_pack_finite {e : Int} (hm : 0 < m) (hlow : 2 ^ 52 ≤ m) (hhigh : m < 2 ^ 53)
    (hsmall : j < 1024) (he : e = (j : Int) - 52) :
    (Float.Model.pack (.finite s m e hm)).unpack = .finite s m e hm := by
  change Float.Model.UnpackedFloat.unpack .binary64
    (Float.Model.UnpackedFloat.pack .binary64 (.finite s m e hm)) = .finite s m e hm
  have hbias : (Format.binary64.exponentBias : Int) = 1023 := rfl
  have hbits : (Format.binary64.mantissaBitsWithoutImplicit : Int) = 52 := rfl
  rw [pack_finite hm hlow hhigh hsmall he, Float.Model.UnpackedFloat.unpack]
  simp only [unpackMantissa_packComponents, unpackExponent_packComponents, unpackSign_packComponents,
    Sign.ofBitVec_toBitVec, toNat_stored hlow hhigh, hbias, hbits]
  have hfield : (BitVec.ofNat 11 (j + 1023)).toNat = j + 1023 := by
    rw [BitVec.toNat_ofNat]
    exact Nat.mod_eq_of_lt (by omega)
  have hfinite : BitVec.ofNat 11 (j + 1023) ≠ -1#11 := by
    intro hall
    have htoNat : j + 1023 = (-1#11).toNat := hfield.symm.trans (congrArg BitVec.toNat hall)
    have hmax : (-1#11).toNat = 2047 := by decide
    omega
  have hnormal : BitVec.ofNat 11 (j + 1023) ≠ 0#11 := by
    intro hzero
    have htoNat : j + 1023 = (0#11).toNat := hfield.symm.trans (congrArg BitVec.toNat hzero)
    have hmin : (0#11).toNat = 0 := by decide
    omega
  rw [if_neg hfinite, if_neg hnormal]
  have hexponent : ((BitVec.ofNat 11 (j + 1023)).toNat : Int) - (1023 + 52) = e := by omega
  simp only [hexponent]

/-- Packing keeps a number all of whose significant bits are in place. -/
theorem Denotes.unpack_pack (h : Denotes s n u) : (Float.Model.pack u).unpack = u := by
  cases h with
  | zero hn => cases s <;> rfl
  | normal hm j hlow hhigh hsmall he hvalue =>
    exact unpack_pack_finite hm hlow hhigh (by omega) he

/-- A number that is denoted stays so when the double is packed into bits and unpacked. -/
theorem Denotes.packed (h : Denotes s n u) : Denotes s n (Float.Model.pack u).unpack := by
  rw [h.unpack_pack]
  exact h

/-! ## Rounding -/

/-- The exponent that leaves 53 bits; numbers of one or more are never subnormal. -/
theorem targetExponent_eq {e : Int} (he : e + m.log2 = j) :
    Format.binary64.targetExponent (totalExponent m e) = (j : Int) - 52 := by
  have hbits : (Format.binary64.mantissaBits : Int) = 53 := rfl
  have hmin : Format.binary64.minExponent = -1074 := by decide
  rw [Format.targetExponent, totalExponent, hbits, hmin]
  omega

/-- An exact mantissa is shifted to 53 bits, and its exponent goes with it. -/
theorem shiftToTargetExponent_eq {e : Int} (hm : 52 ≤ m.log2) (he : e + m.log2 = j) :
    shiftToTargetExponent .binary64 m e .exact
      = (ExtendedMantissa.ofMantissaAndAccuracy m .exact >>> (m.log2 - 52), (j : Int) - 52) := by
  have hamount : ((j : Int) - 52 - e).toNat = m.log2 - 52 := by omega
  rw [shiftToTargetExponent, targetExponent_eq he, shiftToExponent, hamount]
  congr 1
  omega

/-- Doubling a positive number adds one to its logarithm, any number of times. -/
theorem log2_mul_two_pow (hm : m ≠ 0) (k : Nat) : (m * 2 ^ k).log2 = m.log2 + k := by
  rw [Nat.log2_eq_iff (Nat.mul_ne_zero hm (Nat.two_pow_pos k).ne')]
  constructor
  · rw [Nat.pow_add]
    exact Nat.mul_le_mul_right _ (Nat.log2_self_le hm)
  · rw [Nat.add_right_comm, Nat.pow_add]
    exact Nat.mul_lt_mul_of_pos_right Nat.lt_log2_self (Nat.two_pow_pos k)

/-- A mantissa that rounding carried to 2 ^ 53 is even, so that one more shift loses nothing. -/
theorem carry_mem {q : Nat} (hlow : 2 ^ 52 ≤ q) (hhigh : q ≤ 2 ^ 53) :
    q.log2 - 52 ≤ 1 ∧ 2 ^ 52 ≤ q / 2 ^ (q.log2 - 52) ∧ q / 2 ^ (q.log2 - 52) < 2 ^ 53
      ∧ q / 2 ^ (q.log2 - 52) * 2 ^ (q.log2 - 52) = q := by
  rcases Nat.lt_or_eq_of_le hhigh with hless | rfl
  · rw [log2_eq hlow hless, Nat.sub_self, Nat.pow_zero, Nat.div_one, Nat.mul_one]
    exact ⟨Nat.zero_le _, hlow, hless, rfl⟩
  · rw [Nat.log2_two_pow]
    decide

/-- Rounding to the nearest mantissa of 53 bits, with one more shift if it carries. -/
theorem exists_roundWithAccuracy_eq {e : Int} (s : Sign) (hm : 52 ≤ m.log2) (he : e + m.log2 = j)
    (hvalue : halfEven m (spacing m) * 2 ^ j = n * 2 ^ 52) :
    ∃ q k : Nat, ∃ hq : 0 < q, roundWithAccuracy .binary64 s m e .exact = .finite s q ((k : Int) - 52) hq
      ∧ 2 ^ 52 ≤ q ∧ q < 2 ^ 53 ∧ k ≤ j + 1 ∧ q * 2 ^ k = n * 2 ^ 52 := by
  have hrounded : ((ExtendedMantissa.ofMantissaAndAccuracy m .exact) >>> (m.log2 - 52)).roundedMantissa
      = halfEven m (spacing m) := ((cut_exact m).shiftRight _).roundedMantissa_eq
  obtain ⟨hlow, hhigh⟩ := halfEven_spacing_mem hm
  generalize halfEven m (spacing m) = q at hrounded hlow hhigh hvalue
  have hlog : 52 ≤ q.log2 := (Nat.le_log2 (by omega)).mpr hlow
  have hagain := shiftToTargetExponent_eq (j := j + (q.log2 - 52)) (e := (j : Int) - 52) hlog (by omega)
  rw [roundWithAccuracy, shiftToTargetExponent_eq hm he]
  simp only [hrounded, hagain, ((cut_exact q).shiftRight _).mantissa]
  obtain ⟨hcarry, hq_low, hq_high, hq⟩ := carry_mem hlow hhigh
  rw [dif_neg (by omega)]
  refine ⟨_, j + (q.log2 - 52), by omega, rfl, hq_low, hq_high, by omega, ?_⟩
  rw [Nat.pow_add, Nat.mul_comm (2 ^ j), ← Nat.mul_assoc, hq, hvalue]

/-- Rounding an exact mantissa of at least 53 bits gives the double of the nearest number. -/
theorem roundWithAccuracy_denotes {e : Int} (s : Sign) (hm : 52 ≤ m.log2) (he : e + m.log2 = j)
    (hj : j < 999) (hvalue : halfEven m (spacing m) * 2 ^ j = n * 2 ^ 52) :
    Denotes s n (roundWithAccuracy .binary64 s m e .exact) := by
  obtain ⟨q, k, hq, hrounded, hlow, hhigh, hk, hvalue'⟩ := exists_roundWithAccuracy_eq s hm he hvalue
  rw [hrounded]
  exact .normal hq k hlow hhigh (by omega) rfl hvalue'

/-! ## Conversion -/

/-- A small number is first widened to 53 bits, which leaves nothing to round. -/
theorem round_denotes (hpos : 0 < n) (hn : n < 2 ^ 53) :
    Denotes .positive n (UnpackedFloat.round .binary64 .positive n 0) := by
  have hlog : n.log2 ≤ 52 := Nat.le_of_lt_succ ((Nat.log2_lt hpos.ne').mpr hn)
  have htarget : Format.binary64.targetExponent (totalExponent n 0) = (n.log2 : Int) - 52 :=
    targetExponent_eq (Int.zero_add _)
  have hamount : (0 - ((n.log2 : Int) - 52)).toNat = 52 - n.log2 := by omega
  have hlow : 2 ^ 52 ≤ n * 2 ^ (52 - n.log2) := by
    calc 2 ^ 52 = 2 ^ n.log2 * 2 ^ (52 - n.log2) := by rw [← Nat.pow_add, Nat.add_sub_cancel' hlog]
      _ ≤ n * 2 ^ (52 - n.log2) := Nat.mul_le_mul_right _ (Nat.log2_self_le hpos.ne')
  have hhigh : n * 2 ^ (52 - n.log2) < 2 ^ 53 := by
    calc n * 2 ^ (52 - n.log2) < 2 ^ (n.log2 + 1) * 2 ^ (52 - n.log2) :=
          Nat.mul_lt_mul_of_pos_right Nat.lt_log2_self (Nat.two_pow_pos _)
      _ = 2 ^ 53 := by
          rw [← Nat.pow_add]
          congr 1
          omega
  rw [UnpackedFloat.round, htarget, decreaseExponent, hamount, Nat.shiftLeft_eq]
  refine roundWithAccuracy_denotes .positive (log2_eq hlow hhigh).ge ?_ (by omega : n.log2 < 999) ?_
  · rw [log2_eq hlow hhigh]
    omega
  · rw [spacing_eq_one hhigh, halfEven_one, Nat.mul_assoc, ← Nat.pow_add, Nat.sub_add_cancel hlog]

/-- A number below 2 ^ 53 is converted to the double that denotes it. -/
theorem toFloat_denotes (hn : n < 2 ^ 53) : Denotes .positive n n.toUInt64.toFloat.toModel.unpack := by
  change Denotes .positive n (Float.Model.pack
    (UnpackedFloat.normalize .binary64 (n.toUInt64.toNat : Int) 0 .positive)).unpack
  have hself : n.toUInt64.toNat = n := UInt64.toNat_ofNat_of_lt (by rw [UInt64.size]; omega)
  have hdenotes : Denotes .positive n (UnpackedFloat.normalize .binary64 (n : Int) 0 .positive) := by
    rcases Nat.eq_zero_or_pos n with rfl | hpos
    · exact .zero rfl
    · rw [UnpackedFloat.normalize, compare_gt_iff_gt.mpr (Int.natCast_pos.mpr hpos)]
      exact round_denotes hpos hn
  rw [hself]
  exact hdenotes.packed

/-- The factor of a numeral without an exponent is one. -/
theorem unpack_powersOfTen :
    Float.exactlyRepresentablePowersOfTen[0].toModel.unpack
      = .finite .positive (2 ^ 52) (-52) (Nat.two_pow_pos 52) := by
  rfl

/-- Multiplication with one leaves what a double denotes. -/
theorem Denotes.mul_one (h : Denotes .positive n u) (hn : n < 2 ^ 53) :
    Denotes .positive n (mul .binary64 u (.finite .positive (2 ^ 52) (-52) (Nat.two_pow_pos 52))) := by
  cases h with
  | zero hn => exact .zero hn
  | @normal m e hm j hlow hhigh hsmall he hvalue =>
    have hlog : (m * 2 ^ 52).log2 = 104 := by rw [log2_mul_two_pow hm.ne', log2_eq hlow hhigh]
    have hj : j < 53 := by
      have hpow : 2 ^ 52 * 2 ^ j < 2 ^ 52 * 2 ^ 53 := by
        calc 2 ^ 52 * 2 ^ j ≤ m * 2 ^ j := Nat.mul_le_mul_right _ hlow
          _ = n * 2 ^ 52 := hvalue
          _ < 2 ^ 52 * 2 ^ 53 := by omega
      exact (Nat.pow_lt_pow_iff_right (by decide)).mp (Nat.lt_of_mul_lt_mul_left hpow)
    refine roundWithAccuracy_denotes .positive (by omega) ?_ (by omega : j < 999) ?_
    · rw [hlog, he]
      omega
    · rw [spacing, hlog, halfEven_mul_left m (Nat.two_pow_pos 52), hvalue]

/-- A large number is rounded once. -/
theorem exists_ofScientific_eq (hlow : 2 ^ 53 ≤ n) :
    ∃ q k : Nat, ∃ hq : 0 < q, ofScientific .binary64 n 0 = .finite .positive q ((k : Int) - 52) hq
      ∧ 2 ^ 52 ≤ q ∧ q < 2 ^ 53 ∧ k ≤ n.log2 + 1 ∧ q * 2 ^ k = nearestNat n * 2 ^ 52 := by
  have hn : n ≠ 0 := by omega
  have hlog : 53 ≤ n.log2 := (Nat.le_log2 hn).mpr hlow
  have hshift : (n * 2 ^ 53).log2 = n.log2 + 53 := log2_mul_two_pow hn 53
  have hscale : n.log2 = 52 + (n.log2 - 52) := by omega
  have hbits : Format.binary64.mantissaBits = 53 := rfl
  have hfactor : 10 ^ (0 : Int).toNat = 1 := rfl
  have hrange : (2 : Int) ^ Format.binary64.exponentBits = 2048 := rfl
  rw [ofScientific, dif_neg hn, hrange, if_neg (by decide), if_neg (by omega), if_pos (by decide), mul,
    hfactor, Nat.mul_one, hbits, Nat.shiftLeft_eq]
  refine exists_roundWithAccuracy_eq .positive (by omega) ?_ ?_
  · rw [hshift]
    push_cast
    omega
  · have hspacing : spacing (n * 2 ^ 53) = spacing n * 2 ^ 53 := by
      rw [spacing, spacing, hshift, ← Nat.pow_add]
      congr 1
      omega
    rw [hspacing, halfEven_mul_right (Nat.two_pow_pos 53), nearestNat, Nat.mul_assoc]
    congr 1
    rw [spacing, ← Nat.pow_add, Nat.add_comm, ← hscale]

/-- A number of 54 to 64 bits, read from its digits, gives its nearest double. -/
theorem ofScientific_denotes (hlow : 2 ^ 53 ≤ n) (hhigh : n < 2 ^ 64) :
    Denotes .positive (nearestNat n) (ofScientific .binary64 n 0) := by
  have hlog : n.log2 < 64 := (Nat.log2_lt (by omega)).mpr hhigh
  obtain ⟨q, k, hq, hrounded, hq_low, hq_high, hk, hvalue⟩ := exists_ofScientific_eq hlow
  rw [hrounded]
  exact .normal hq k hq_low hq_high (by omega) rfl hvalue

/-- A number too large for the table of small factors is taken as it is. -/
theorem ofScientific_of_le (hlow : 2 ^ 53 ≤ n) :
    Float.ofScientific n false 0 = .ofModel (.pack (ofScientific .binary64 n 0)) := by
  rw [Float.ofScientific, dif_neg (by omega)]
  rfl

/-- What a natural number becomes: its nearest double. -/
theorem ofNat_denotes (hn : n < 2 ^ 64) :
    Denotes .positive (nearestNat n) (Float.ofNat n).toModel.unpack := by
  rcases Nat.lt_or_ge n (2 ^ 53) with hsmall | hlarge
  · have hproduct : Float.ofNat n
        = n.toUInt64.toFloat * Float.exactlyRepresentablePowersOfTen[0] := by
      change Float.ofScientific n false 0 = _
      rw [Float.ofScientific, dif_pos ⟨hsmall, by decide⟩]
      rfl
    rw [hproduct, nearestNat_of_lt hsmall]
    change Denotes .positive n (Float.Model.pack (mul .binary64 n.toUInt64.toFloat.toModel.unpack
      Float.exactlyRepresentablePowersOfTen[0].toModel.unpack)).unpack
    rw [unpack_powersOfTen]
    exact ((toFloat_denotes hsmall).mul_one hsmall).packed
  · have hrounded : Float.ofNat n = .ofModel (.pack (ofScientific .binary64 n 0)) :=
      ofScientific_of_le hlarge
    rw [hrounded]
    exact (ofScientific_denotes hlarge hn).packed

/-- What an integer becomes: its nearest double. -/
theorem ofInt_denotes {a : Int} (ha : a.natAbs < 2 ^ 64) :
    ∃ s, s.apply (nearestNat a.natAbs) = nearest a
      ∧ Denotes s (nearestNat a.natAbs) (Float.ofInt a).toModel.unpack := by
  cases a with
  | ofNat n => exact ⟨.positive, (nearest_natCast n).symm, ofNat_denotes ha⟩
  | negSucc n =>
    refine ⟨.negative, ?_, ?_⟩
    · rw [Int.negSucc_eq, nearest_neg, Int.natAbs_neg]
      exact congrArg Neg.neg (nearest_natCast (n + 1)).symm
    · exact (ofNat_denotes ha).neg.packed

/-- Integers seen as doubles are in the order of their nearest doubles. -/
theorem order?_ofInt {a b : Int} (ha : a.natAbs < 2 ^ 64) (hb : b.natAbs < 2 ^ 64) :
    Value.order? (Float.ofInt a) (Float.ofInt b) = some (compare (nearest a) (nearest b)) := by
  obtain ⟨s, hs, hdenotes⟩ := ofInt_denotes ha
  obtain ⟨t, ht, hdenotes'⟩ := ofInt_denotes hb
  rw [Value.order?, hdenotes.compare_eq hdenotes', hs, ht]

end CommandChain.Rounding
