import CommandChain.Value.Conversion
import CommandChain.Proofs.Values.Doubles
import Mathlib.Data.Nat.Digits.Defs
/-!
# Integer numerals converted to integers

A text that is an integer numeral is read as a 64-bit integer where it is in range. Where it is not,
it is read again as a double, and the double counts if it is whole and in range. All doubles from
2 ^ 53 on are whole, so that only the range is left to refuse the numeral, and the numeral has been
rounded by then: the 1024 integers below the least 64-bit integer round to it, and are taken for it.
-/

namespace CommandChain

open Float.Model (UnpackedFloat)
open Float.Model.UnpackedFloat

variable {s : Sign} {n m j k : Nat} {x : Float} {ds cs : List Char} {text : String} {i : Int}

/-! ## The integer a double is equal to -/

namespace Decimal

open Rounding (nearestNat)
open CommandChain.Text (isDigit digitValue)

/-- The fields of a double are its components. -/
theorem fields_of_toBitVec {exponent : BitVec 11} {fraction : BitVec 52}
    (hx : x.toBits.toBitVec = packComponents .binary64 s exponent fraction) :
    exponentField x = exponent.toNat ∧ fractionField x = fraction.toNat
      ∧ isNegative x = (s == .negative) := by
  have hbits : x.toBits.toNat
      = (s.toBitVec.toNat * 2 ^ 11 + exponent.toNat) * 2 ^ 52 + fraction.toNat := by
    rw [← UInt64.toNat_toBitVec, hx]
    change (s.toBitVec ++ exponent ++ fraction).toNat = _
    rw [BitVec.toNat_append, BitVec.toNat_append, ← Nat.shiftLeft_add_eq_or_of_lt exponent.isLt,
      ← Nat.shiftLeft_add_eq_or_of_lt fraction.isLt, Nat.shiftLeft_eq, Nat.shiftLeft_eq]
  have hexponent := exponent.isLt
  have hfraction := fraction.isLt
  have hpowers : Nat.pow 2 52 = 2 ^ 52 ∧ Nat.pow 2 11 = 2 ^ 11 ∧ Nat.pow 2 63 = 2 ^ 63 :=
    ⟨rfl, rfl, rfl⟩
  rw [exponentField, fractionField, isNegative, hbits, hpowers.1, hpowers.2.1, hpowers.2.2]
  cases s with
  | negative =>
    have hsign : Sign.negative.toBitVec.toNat = 1 := rfl
    rw [hsign]
    refine ⟨by omega, by omega, ?_⟩
    rw [show (Sign.negative == Sign.negative) = true from rfl, beq_iff_eq]
    omega
  | positive =>
    have hsign : Sign.positive.toBitVec.toNat = 0 := rfl
    rw [hsign]
    refine ⟨by omega, by omega, ?_⟩
    rw [show (Sign.positive == Sign.negative) = false from rfl, beq_eq_false_iff_ne]
    omega

/-- Infinity is no integer. -/
theorem integer?_infinity (hx : x.toBits.toBitVec = packedInfinity .binary64 s) :
    integer? x = none := by
  obtain ⟨hexponent, -, -⟩ := fields_of_toBitVec hx
  rw [integer?, isFinite, hexponent, if_neg (by decide)]

/-- A scaled mantissa that denotes a natural number is that number. -/
theorem whole?_eq {narrow : Bool} (hvalue : m * 2 ^ j = n * 2 ^ 52) :
    (Binary.mk m ((j : Int) - 52) narrow).whole? = some n := by
  rw [Binary.whole?]
  rcases Nat.lt_or_ge j 52 with hj | hj
  · have hscale : (-((j : Int) - 52)).toNat = 52 - j := by omega
    have hm : m = n * 2 ^ (52 - j) := by
      apply Nat.eq_of_mul_eq_mul_right (Nat.two_pow_pos j)
      rw [hvalue, Nat.mul_assoc, ← Nat.pow_add, Nat.sub_add_cancel hj.le]
    have hunit : Nat.pow 2 (52 - j) = 2 ^ (52 - j) := rfl
    simp only [if_neg (by omega : ¬ 0 ≤ (j : Int) - 52), hscale, hunit, hm, Nat.mul_mod_left,
      beq_self_eq_true, if_true, Nat.mul_div_cancel n (Nat.two_pow_pos _)]
  · have hscale : ((j : Int) - 52).toNat = j - 52 := by omega
    have hn : n = m * 2 ^ (j - 52) := by
      apply Nat.eq_of_mul_eq_mul_right (Nat.two_pow_pos 52)
      rw [← hvalue, Nat.mul_assoc, ← Nat.pow_add, Nat.sub_add_cancel hj]
    have hunit : Nat.pow 2 (j - 52) = 2 ^ (j - 52) := rfl
    simp only [if_pos (by omega : 0 ≤ (j : Int) - 52), hscale, hunit, hn]

/-- A packed number is the integer it denotes, unless it is packed as infinity. -/
theorem integer?_pack_finite {e : Int} (hm : 0 < m) (hlow : 2 ^ 52 ≤ m) (hhigh : m < 2 ^ 53)
    (he : e = (j : Int) - 52) (hvalue : m * 2 ^ j = n * 2 ^ 52) :
    integer? (.ofModel (.pack (.finite s m e hm)))
      = if j < 1024 then some (s.apply n) else none := by
  split
  case isFalse hlarge =>
    exact integer?_infinity (Rounding.pack_overflow hm (by omega) he)
  case isTrue hsmall =>
    obtain ⟨hexponent, hfraction, hsign⟩ := fields_of_toBitVec
      (x := .ofModel (.pack (.finite s m e hm))) (Rounding.pack_finite hm hlow hhigh hsmall he)
    rw [BitVec.toNat_ofNat, Nat.mod_eq_of_lt (by omega)] at hexponent
    rw [BitVec.toNat_ofNat] at hfraction
    have hmantissa : Nat.pow 2 52 + m % 2 ^ 52 = m := by
      have hpower : Nat.pow 2 52 = 2 ^ 52 := rfl
      omega
    have hscale : ((j + 1023 : Nat) : Int) - 1075 = (j : Int) - 52 := by omega
    have hfinite : (j + 1023 != 2047) = true := by
      rw [bne_iff_ne]
      omega
    have hnormal : (j + 1023 == 0) = false := rfl
    simp only [integer?, isFinite, Binary.ofFloat, hexponent, hfraction, hsign, hmantissa, hscale,
      hfinite, hnormal, if_true, Bool.false_eq_true, if_false, whole?_eq hvalue]
    cases s with
    | negative => rfl
    | positive => rfl

/-! ## The double a large numeral is read as -/

/-- A double with its sign turned if the numeral has a minus. -/
def signed (negative : Bool) (x : Float) : Float :=
  if negative then -x else x

/-- Turning the sign of a packed number turns the sign of the integer. Infinity stays infinity. -/
theorem integer?_signed_pack {e : Int} (negative : Bool) (hm : 0 < m) (hlow : 2 ^ 52 ≤ m)
    (hhigh : m < 2 ^ 53) (he : e = (j : Int) - 52) (hvalue : m * 2 ^ j = n * 2 ^ 52) :
    integer? (signed negative (.ofModel (.pack (.finite .positive m e hm))))
      = if j < 1024 then some (if negative then -(n : Int) else n) else none := by
  cases negative with
  | false => exact integer?_pack_finite hm hlow hhigh he hvalue
  | true =>
    change integer? (.ofModel (.pack (Float.Model.pack (.finite .positive m e hm)).unpack.neg)) = _
    split
    case isTrue hsmall =>
      rw [Rounding.unpack_pack_finite hm hlow hhigh hsmall he]
      exact (integer?_pack_finite (s := .negative) hm hlow hhigh he hvalue).trans (if_pos hsmall)
    case isFalse hlarge =>
      refine integer?_infinity (s := .negative) ?_
      change UnpackedFloat.pack .binary64 (UnpackedFloat.unpack .binary64
        (UnpackedFloat.pack .binary64 (.finite .positive m e hm))).neg = _
      rw [Rounding.pack_overflow hm (by omega) he]
      rfl

/-- Numerals of more than 400 digits are not looked at. -/
theorem nearest_of_long (hn : n ≠ 0) (hlong : 400 < (Nat.repr n).length) :
    nearest n 0 = Float.ofBits 0x7FF0000000000000 := by
  have hdigits : (n == 0) = false := beq_eq_false_iff_ne.mpr hn
  have htop : 400 < (0 : Int) + (Nat.repr n).length := by omega
  rw [nearest, hdigits]
  simp only [Bool.false_eq_true, if_false, if_pos htop]

/-- A numeral of at most 400 digits is read as it stands. -/
theorem nearest_of_short (hn : n ≠ 0) (hshort : (Nat.repr n).length ≤ 400) :
    nearest n 0 = Float.ofScientific n false 0 := by
  have hdigits : (n == 0) = false := beq_eq_false_iff_ne.mpr hn
  have htop : ¬ 400 < (0 : Int) + (Nat.repr n).length := by omega
  have hbottom : ¬ (0 : Int) + (Nat.repr n).length < -400 := by omega
  rw [nearest, hdigits]
  simp only [Bool.false_eq_true, if_false, if_neg htop, if_neg hbottom]
  rfl

/-- A large numeral is read as the double nearest to it, or as infinity. -/
theorem integer?_signed_nearest (negative : Bool) (hn : 2 ^ 53 ≤ n) :
    integer? (signed negative (nearest n 0))
        = some (if negative then -(nearestNat n : Int) else nearestNat n)
      ∨ 2 ^ 64 ≤ n ∧ integer? (signed negative (nearest n 0)) = none := by
  rcases Nat.lt_or_ge 400 (Nat.repr n).length with hlong | hshort
  · have hlarge : 10 ^ 400 ≤ n := by
      rw [← Nat.not_lt, ← Nat.length_repr_le_iff (by decide)]
      omega
    refine .inr ⟨by omega, ?_⟩
    rw [nearest_of_long (by omega) hlong]
    cases negative with
    | false => exact integer?_infinity (s := .positive) rfl
    | true => exact integer?_infinity (s := .negative) rfl
  · obtain ⟨q, k, hq, hfinite, hlow, hhigh, hk, hvalue⟩ := Rounding.exists_ofScientific_eq hn
    rw [nearest_of_short (by omega) hshort, Rounding.ofScientific_of_le hn, hfinite,
      integer?_signed_pack negative hq hlow hhigh rfl hvalue]
    split
    case isTrue => exact .inl rfl
    case isFalse hlarge => exact .inr ⟨(Nat.le_log2 (by omega)).mp (by omega), rfl⟩

/-! ## Numerals -/

/-- Decimal digits, at least one of them. -/
def DigitList (ds : List Char) : Prop :=
  ds ≠ [] ∧ ∀ c ∈ ds, '0' ≤ c ∧ c ≤ '9'

/-- A text of digits is one that is not empty and passes the test for digits throughout. -/
theorem digitList_iff : DigitList ds ↔ ds ≠ [] ∧ ds.all isDigit = true := by
  simp only [DigitList, isDigit, List.all_eq_true, Bool.and_eq_true, decide_eq_true_iff]

instance (ds : List Char) : Decidable (DigitList ds) :=
  decidable_of_iff _ digitList_iff.symm

/-- A text that is an optional sign and decimal digits denotes an integer. -/
inductive Numeral : List Char → Int → Prop
  | unsigned {ds : List Char} (hds : DigitList ds) : Numeral ds (Nat.ofDigitChars 10 ds 0)
  | plus {ds : List Char} (hds : DigitList ds) : Numeral ('+' :: ds) (Nat.ofDigitChars 10 ds 0)
  | minus {ds : List Char} (hds : DigitList ds) : Numeral ('-' :: ds) (-Nat.ofDigitChars 10 ds 0)

/-- The value of digits is the number they denote. -/
theorem digitsValue_eq (ds : List Char) : digitsValue ds = Nat.ofDigitChars 10 ds 0 := by
  simp only [digitsValue, Nat.ofDigitChars_eq_foldl, digitValue, Nat.mul_comm 10]

theorem DigitList.all_isDigit (hds : DigitList ds) : ∀ c ∈ ds, isDigit c = true :=
  List.all_eq_true.mp (digitList_iff.mp hds).2

theorem DigitList.isEmpty_eq (hds : DigitList ds) : ds.isEmpty = false :=
  List.isEmpty_eq_false_iff.mpr hds.1

/-- The natural number of digits is the one they denote. -/
theorem DigitList.natural?_eq (hds : DigitList ds) :
    natural? ds = some (Nat.ofDigitChars 10 ds 0) := by
  rw [natural?, (digitList_iff.mp hds).2, hds.isEmpty_eq, ← digitsValue_eq]
  rfl

/-- A numeral is a sign that is split off, digits, and the value of the digits with that sign. -/
theorem Numeral.exists_digits (h : Numeral cs i) :
    ∃ negative ds, splitSign cs = (negative, ds) ∧ DigitList ds
      ∧ i = if negative then -(Nat.ofDigitChars 10 ds 0 : Int) else Nat.ofDigitChars 10 ds 0 := by
  cases h with
  | plus hds => exact ⟨false, _, rfl, hds, rfl⟩
  | minus hds => exact ⟨true, _, rfl, hds, rfl⟩
  | unsigned hds =>
    refine ⟨false, cs, ?_, hds, rfl⟩
    cases cs with
    | nil => exact absurd rfl hds.1
    | cons c rest =>
      have hc := hds.2 c List.mem_cons_self
      have hminus : c ≠ '-' := by
        rintro rfl
        exact absurd hc (by decide)
      have hplus : c ≠ '+' := by
        rintro rfl
        exact absurd hc (by decide)
      rw [splitSign]
      · intro rest' h
        exact hminus (List.cons.inj h).1
      · intro rest' h
        exact hplus (List.cons.inj h).1

/-- A digit is its own lower case, so that digits spell no word. -/
theorem DigitList.spells_no_word (hds : DigitList ds) (word : String) {c : Char}
    (hc : c ∈ word.toList) (hletter : isDigit c = false) :
    String.ofList (ds.map Char.toLower) ≠ word := by
  rintro rfl
  rw [String.toList_ofList, List.mem_map] at hc
  obtain ⟨d, hd, rfl⟩ := hc
  have hd' := hds.2 d hd
  have hlower : d.toLower = d := by
    refine dif_neg fun hupper => ?_
    have htop : d.val ≤ '9'.val := hd'.2
    exact absurd (UInt32.le_trans hupper.1 htop) (by decide)
  rw [hlower, hds.all_isDigit d hd] at hletter
  exact Bool.noConfusion hletter

/-- Digits without a point and an exponent are read as the double nearest to their value. -/
theorem DigitList.unsigned?_eq (hds : DigitList ds) :
    unsigned? ds = some (nearest (Nat.ofDigitChars 10 ds 0) 0) := by
  have hall : ds.takeWhile isDigit = ds := List.takeWhile_eq_self_iff.mpr hds.all_isDigit
  have hrest : ds.dropWhile isDigit = [] := List.dropWhile_eq_nil_iff.mpr hds.all_isDigit
  simp only [unsigned?, hall, hrest, hds.isEmpty_eq, Bool.false_and, Bool.false_eq_true, if_false,
    exponentPart?, Option.map_some, List.append_nil, List.length_nil, digitsValue_eq]
  rfl

/-- A numeral that the integer reader has refused is read as a double with its sign. -/
theorem readFloat?_eq {negative : Bool} (hsplit : splitSign text.toList = (negative, ds))
    (hds : DigitList ds) :
    readFloat? text = some (signed negative (nearest (Nat.ofDigitChars 10 ds 0) 0)) := by
  have hinf := hds.spells_no_word "inf" (c := 'i') (by decide) (by decide)
  have hinfinity := hds.spells_no_word "infinity" (c := 'i') (by decide) (by decide)
  have hnan := hds.spells_no_word "nan" (c := 'n') (by decide) (by decide)
  have hsigned {value : Option Float} (h : value = unsigned? ds) :
      (value.map fun x => if negative then -x else x)
        = some (signed negative (nearest (Nat.ofDigitChars 10 ds 0) 0)) := by
    rw [h, hds.unsigned?_eq]
    rfl
  rw [readFloat?, hsplit]
  refine hsigned ?_
  split
  case h_1 h => exact absurd h hinf
  case h_2 h => exact absurd h hinfinity
  case h_3 h => exact absurd h hnan
  case h_4 => rfl

/-- The 64-bit integer of a numeral is that of the integer it denotes. -/
theorem readInt64?_eq (h : Numeral text.toList i) : readInt64? text = int64? i := by
  obtain ⟨negative, ds, hsplit, hds, rfl⟩ := h.exists_digits
  rw [readInt64?, integerNumeral?, hsplit]
  simp only [hds.natural?_eq]
  rfl

/-! ## The range -/

/-- The integers that have a 64-bit integer. -/
def InRange (i : Int) : Prop :=
  Int64.minValue.toInt ≤ i ∧ i ≤ Int64.maxValue.toInt

/-- The integers below the range whose nearest double is the least 64-bit integer. -/
def RoundsToLeast (i : Int) : Prop :=
  Int64.minValue.toInt - 1024 ≤ i ∧ i < Int64.minValue.toInt

instance (i : Int) : Decidable (InRange i) :=
  inferInstanceAs (Decidable (_ ∧ _))

instance (i : Int) : Decidable (RoundsToLeast i) :=
  inferInstanceAs (Decidable (_ ∧ _))

/-- An integer that only rounds to the least one is out of range. -/
theorem RoundsToLeast.not_inRange (h : RoundsToLeast i) : ¬ InRange i :=
  fun hrange => absurd hrange.1 (Int.not_le.mpr h.2)

/-- An integer in range has the 64-bit integer of its own. -/
theorem int64?_of_inRange (h : InRange i) : int64? i = some (Int64.ofInt i) := by
  simp only [int64?, Bool.and_eq_true, decide_eq_true_iff]
  exact if_pos h

/-- An integer out of range has no 64-bit integer. -/
theorem int64?_of_not_inRange (h : ¬ InRange i) : int64? i = none := by
  simp only [int64?, Bool.and_eq_true, decide_eq_true_iff]
  exact if_neg h

theorem least_eq : Int64.minValue.toInt = -2 ^ 63 := rfl

theorem greatest_eq : Int64.maxValue.toInt = 2 ^ 63 - 1 := rfl

/-- Above 2 ^ 63 doubles are 2048 apart, and a half goes down to 2 ^ 63, which is even. -/
theorem nearestNat_eq_two_pow_iff (hn : 2 ^ 63 ≤ n) : nearestNat n = 2 ^ 63 ↔ n ≤ 2 ^ 63 + 1024 := by
  constructor
  · intro hsame
    by_contra hmore
    have hnext : nearestNat (2 ^ 63 + 1025) ≤ nearestNat n := Rounding.nearestNat_mono (by omega)
    have hvalue : nearestNat (2 ^ 63 + 1025) = 2 ^ 63 + 2048 := by decide
    omega
  · intro hle
    have hlow : nearestNat (2 ^ 63) ≤ nearestNat n := Rounding.nearestNat_mono hn
    have hhigh : nearestNat n ≤ nearestNat (2 ^ 63 + 1024) := Rounding.nearestNat_mono hle
    have hvalues : nearestNat (2 ^ 63) = 2 ^ 63 ∧ nearestNat (2 ^ 63 + 1024) = 2 ^ 63 := by decide
    omega

/-- Of the integers out of range only those that round to the least one are in range as doubles. -/
theorem integral?_signed_nearest (negative : Bool)
    (hout : ¬ InRange (if negative then -(n : Int) else n)) :
    Value.integral? (signed negative (nearest n 0))
      = if negative = true ∧ n ≤ 2 ^ 63 + 1024 then some Int64.minValue else none := by
  have hn : 2 ^ 63 ≤ n := by
    rw [InRange, least_eq, greatest_eq] at hout
    split at hout <;> omega
  have hrounded : 2 ^ 63 ≤ nearestNat n := by
    have hvalue : nearestNat (2 ^ 63) = 2 ^ 63 := by decide
    exact hvalue.symm.trans_le (Rounding.nearestNat_mono hn)
  have hleast := nearestNat_eq_two_pow_iff hn
  rw [Value.integral?]
  rcases integer?_signed_nearest negative (by omega : 2 ^ 53 ≤ n) with hinteger | ⟨hlarge, hinteger⟩
  · rw [hinteger, Option.bind_some]
    by_cases h : negative = true ∧ n ≤ 2 ^ 63 + 1024
    · rw [if_pos h, if_pos h.1, hleast.mpr h.2]
      rfl
    · rw [if_neg h]
      refine int64?_of_not_inRange fun hrange => h ?_
      rw [InRange, least_eq, greatest_eq] at hrange
      split at hrange
      case isTrue hnegative => exact ⟨hnegative, hleast.mp (by omega)⟩
      case isFalse => omega
  · rw [hinteger, if_neg (by omega)]
    rfl

end Decimal

/-! ## The conversion -/

namespace Value

open Decimal (Numeral InRange RoundsToLeast)

/-- A text that denotes an integer in range is read as that. -/
theorem textToInt?_of_inRange (h : Numeral (Text.trim text).toList i) (hrange : InRange i) :
    textToInt? text = some (Int64.ofInt i) := by
  unfold textToInt?
  simp only [Decimal.readInt64?_eq h, Decimal.int64?_of_inRange hrange]

/-- What the double reader makes of a numeral that the integer reader has refused. -/
theorem textToInt?_of_not_inRange (h : Numeral (Text.trim text).toList i) (hrange : ¬ InRange i) :
    (RoundsToLeast i → textToInt? text = some Int64.minValue)
      ∧ (¬ RoundsToLeast i → textToInt? text = none) := by
  obtain ⟨negative, ds, hsplit, hds, rfl⟩ := h.exists_digits
  have hread : textToInt? text
      = integral? (Decimal.signed negative (Decimal.nearest (Nat.ofDigitChars 10 ds 0) 0)) := by
    unfold textToInt?
    simp only [Decimal.readInt64?_eq h, Decimal.int64?_of_not_inRange hrange,
      Decimal.readFloat?_eq hsplit hds]
    rfl
  rw [hread, Decimal.integral?_signed_nearest negative hrange]
  rw [InRange, Decimal.least_eq, Decimal.greatest_eq] at hrange
  rw [RoundsToLeast, Decimal.least_eq]
  cases negative with
  | false =>
    simp only [Bool.false_eq_true, if_false, false_and] at hrange ⊢
    exact ⟨fun hleast => by omega, fun _ => trivial⟩
  | true =>
    simp only [if_true, true_and] at hrange ⊢
    exact ⟨fun hleast => if_pos (by omega), fun hleast => if_neg (by omega)⟩

/-- A text that is read as an integer converts to it. -/
theorem convertTo_eq_ok {a : Int64} (hread : textToInt? text = some a) :
    convertTo (.string text) .int = .ok (.int a) := by
  have htype : (Value.string text).isExactly .int = false := rfl
  simp only [convertTo, htype, Bool.false_eq_true, if_false, coerce?, hread, Option.map_some]

/-- A text that is not read as an integer is refused. -/
theorem convertTo_eq_error (hread : textToInt? text = none) :
    convertTo (.string text) .int = .error ⟨text, "string", .int⟩ := by
  have htype : (Value.string text).isExactly .int = false := rfl
  simp only [convertTo, htype, Bool.false_eq_true, if_false, coerce?, hread, Option.map_none]
  rfl

/-- The text converts to the integer it denotes if that is in range, and otherwise it is refused; it
never converts to another integer. -/
structure ConvertsExactly (text : String) (i : Int) : Prop where
  inRange : InRange i → convertTo (.string text) .int = .ok (.int (Int64.ofInt i))
  outOfRange : ¬ InRange i → convertTo (.string text) .int = .error ⟨text, "string", .int⟩
  faithful : ∀ a, convertTo (.string text) .int = .ok (.int a) → a.toInt = i

/-- A text whose integer only rounds to the least one converts to that one all the same. -/
theorem convertTo_of_roundsToLeast (h : Numeral (Text.trim text).toList i)
    (hleast : RoundsToLeast i) : convertTo (.string text) .int = .ok (.int Int64.minValue) :=
  convertTo_eq_ok ((textToInt?_of_not_inRange h hleast.not_inRange).1 hleast)

/-- An integer numeral converts exactly or not at all, unless it denotes one of the 1024 integers
below the range that round to the least integer in range: these convert to that integer. -/
theorem convertsExactly_iff (text : String) (i : Int) (h : Numeral (Text.trim text).toList i) :
    (ConvertsExactly text i ↔ ¬ RoundsToLeast i)
      ∧ (RoundsToLeast i → convertTo (.string text) .int = .ok (.int Int64.minValue)) := by
  refine ⟨⟨fun hexact hleast => ?_, fun hleast => ?_⟩, convertTo_of_roundsToLeast h⟩
  · have hsame := hexact.faithful _ (convertTo_of_roundsToLeast h hleast)
    have hless := hleast.2
    omega
  · by_cases hrange : InRange i
    · have hread := convertTo_eq_ok (textToInt?_of_inRange h hrange)
      refine ⟨fun _ => hread, fun hout => absurd hrange hout, fun a ha => ?_⟩
      rw [hread] at ha
      cases ha
      exact Int64.toInt_ofInt_of_le hrange.1 (Int.lt_add_one_of_le hrange.2)
    · have hread := convertTo_eq_error ((textToInt?_of_not_inRange h hrange).2 hleast)
      refine ⟨fun hin => absurd hin hrange, fun _ => hread, fun a ha => ?_⟩
      rw [hread] at ha
      cases ha

/-- The greatest integer in range with a sign and in white space. -/
theorem numeral_greatest :
    Numeral (Text.trim " +9223372036854775807 ").toList 9223372036854775807 := by
  have htext : (Text.trim " +9223372036854775807 ").toList = '+' :: "9223372036854775807".toList := by
    decide
  have hvalue : (Nat.ofDigitChars 10 "9223372036854775807".toList 0 : Int) = 9223372036854775807 := by
    decide
  have hnumeral : Numeral _ _ :=
    .plus (by decide : Decimal.DigitList "9223372036854775807".toList)
  rwa [hvalue, ← htext] at hnumeral

/-- The integer below the range. -/
theorem numeral_below : Numeral (Text.trim "-9223372036854775809").toList (-9223372036854775809) := by
  have htext : (Text.trim "-9223372036854775809").toList = '-' :: "9223372036854775809".toList := by
    decide
  have hvalue : (Nat.ofDigitChars 10 "9223372036854775809".toList 0 : Int) = 9223372036854775809 := by
    decide
  have hnumeral : Numeral _ _ :=
    .minus (by decide : Decimal.DigitList "9223372036854775809".toList)
  rwa [hvalue, ← htext] at hnumeral

/-- The greatest integer in range, and the integer below the range. -/
theorem convertsExactly_iff_bounds :
    (¬ RoundsToLeast 9223372036854775807
        ∧ ConvertsExactly " +9223372036854775807 " 9223372036854775807)
      ∧ RoundsToLeast (-9223372036854775809)
      ∧ convertTo (.string "-9223372036854775809") .int = .ok (.int Int64.minValue) := by
  have hin : ¬ RoundsToLeast 9223372036854775807 := by decide
  have hout : RoundsToLeast (-9223372036854775809) := by decide
  exact ⟨⟨hin, (convertsExactly_iff _ _ numeral_greatest).1.mpr hin⟩, hout,
    (convertsExactly_iff _ _ numeral_below).2 hout⟩

/-- The integer below the range converts, to the least one in it. -/
theorem not_convertsExactly_below :
    Numeral (Text.trim "-9223372036854775809").toList (-9223372036854775809)
      ∧ ¬ ConvertsExactly "-9223372036854775809" (-9223372036854775809) := by
  refine ⟨numeral_below, fun hexact => ?_⟩
  have hsame := hexact.faithful _ (convertTo_of_roundsToLeast numeral_below (by decide))
  exact absurd hsame (by decide)

end Value

end CommandChain
