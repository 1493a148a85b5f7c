import CommandChain.Proofs.Values.Numerals
/-!
# Written integers are numerals

The text of an integer is a numeral that denotes it: decimal digits without a needless zero, behind a
minus sign where the integer is negative.
-/

namespace CommandChain

namespace Text

variable {c : Char} {cs rest : List Char}

/-- A digit is none of the other characters. -/
theorem ne_of_isDigit {d : Char} (hc : isDigit c = true) (hd : isDigit d = false) : c ≠ d := by
  rintro rfl
  rw [hc] at hd
  cases hd

/-- A run of characters ends where one comes that does not belong to it. -/
theorem takeWhile_append {p : Char → Bool} (hall : ∀ c ∈ cs, p c = true)
    (hrest : rest.head?.any p = false) : (cs ++ rest).takeWhile p = cs := by
  rw [List.takeWhile_append_of_pos hall]
  cases rest with
  | nil => simp
  | cons c rest => rw [List.takeWhile_cons_of_neg (by simpa using hrest), List.append_nil]

/-- Dropping characters with a property leaves what starts without it. -/
theorem dropWhile_append {p : Char → Bool} (hall : ∀ c ∈ cs, p c = true)
    (hrest : rest.head?.any p = false) : (cs ++ rest).dropWhile p = rest := by
  rw [List.dropWhile_append_of_pos hall]
  cases rest with
  | nil => rfl
  | cons c rest => rw [List.dropWhile_cons_of_neg (by simpa using hrest)]

end Text

namespace Decimal

open CommandChain.Text (isDigit)

/-- The digits of a positive number do not start with a zero. -/
theorem head?_toDigits_ne_zero {n : Nat} (hn : 0 < n) : (Nat.toDigits 10 n).head? ≠ some '0' := by
  induction n using Nat.strongRecOn with
  | ind n ih =>
    rcases Nat.lt_or_ge n 10 with hlt | hge
    · have hdigit : ∀ d < 10, 0 < d → d.digitChar ≠ '0' := by decide
      rw [Nat.toDigits_of_lt_base hlt, List.head?_cons]
      exact fun h => hdigit n hlt hn (Option.some.inj h)
    · have htens := ih (n / 10) (by omega) (by omega)
      rw [Nat.toDigits_of_base_le (by decide) hge, List.head?_append]
      cases hhead : (Nat.toDigits 10 (n / 10)).head? with
      | none => exact absurd (List.head?_eq_none_iff.mp hhead) Nat.toDigits_ne_nil
      | some c => rwa [hhead] at htens

/-- A natural number is written with decimal digits. -/
theorem digitList_natText (n : Nat) : DigitList (natText n).toList := by
  rw [natText, Nat.toList_repr, digitList_iff, List.all_eq_true]
  refine ⟨Nat.toDigits_ne_nil, fun c hc => ?_⟩
  have hdigit := Nat.isDigit_of_mem_toDigits (by decide) (by decide) hc
  exact hdigit

/-- The digits of a natural number denote it. -/
theorem ofDigitChars_natText (n : Nat) : Nat.ofDigitChars 10 (natText n).toList 0 = n := by
  rw [natText, Nat.toList_repr, Nat.ofDigitChars_toDigits (by decide) (by decide)]

/-- Only zero is written with a zero in front. -/
theorem natText_of_zero_cons {n : Nat} {rest : List Char} (h : (natText n).toList = '0' :: rest) :
    rest = [] := by
  rw [natText, Nat.toList_repr] at h
  rcases Nat.eq_zero_or_pos n with rfl | hn
  · exact (List.cons.inj h).2.symm
  · exact absurd (congrArg List.head? h) (head?_toDigits_ne_zero hn)

/-- An integer is written as a numeral that denotes it. -/
theorem numeral_intText (i : Int) : Numeral (intText i).toList i := by
  cases i with
  | ofNat n =>
    have hnumeral := Numeral.unsigned (digitList_natText n)
    rwa [ofDigitChars_natText] at hnumeral
  | negSucc n =>
    have hnumeral := Numeral.minus (digitList_natText (n + 1))
    rw [ofDigitChars_natText] at hnumeral
    rw [intText, String.toList_append]
    exact hnumeral

/-- Every 64-bit integer is in the range that has one. -/
theorem int64?_toInt (i : Int64) : int64? i.toInt = some i := by
  have hrange : InRange i.toInt := ⟨i.minValue_le_toInt, Int.le_of_lt_add_one i.toInt_lt⟩
  rw [int64?_of_inRange hrange, Int64.ofInt_toInt]

/-- The integer read from a numeral is the one it denotes. -/
theorem integerNumeral?_eq {cs : List Char} {i : Int} (h : Numeral cs i) :
    integerNumeral? cs = some i := by
  obtain ⟨negative, ds, hsplit, hds, rfl⟩ := h.exists_digits
  rw [integerNumeral?, hsplit]
  simp only [hds.natural?_eq]
  rfl

/-- A written 64-bit integer is read back. -/
theorem readInt64?_intText (i : Int64) : readInt64? (intText i.toInt) = some i := by
  rw [readInt64?_eq (numeral_intText i.toInt), int64?_toInt]

end Decimal

end CommandChain
