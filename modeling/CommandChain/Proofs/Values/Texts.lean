import CommandChain.Proofs.Values.Conversion
import CommandChain.Proofs.Values.Digits
/-!
# Texts of values convert back

The texts of integers and truth values convert back to them: a written integer is a numeral without
white space around it, and it denotes the integer.
-/

namespace CommandChain

namespace Text

/-- A text without white space is not trimmed. -/
theorem trim_of_no_blank {s : String} (h : ∀ c ∈ s.toList, isBlank c = false) : trim s = s := by
  have hkept {cs : List Char} (hcs : ∀ c ∈ cs, isBlank c = false) : cs.dropWhile isBlank = cs :=
    List.dropWhile_eq_self_iff.mpr fun hpos => by
      rw [hcs _ (List.getElem_mem hpos)]
      exact Bool.false_ne_true
  have hreversed : ∀ c ∈ s.toList.reverse, isBlank c = false := fun c hc =>
    h c (List.mem_reverse.mp hc)
  rw [trim, trimChars, hkept h, hkept hreversed, List.reverse_reverse, String.ofList_toList]

/-- A digit is no blank. -/
theorem isBlank_of_isDigit {c : Char} (h : isDigit c = true) : isBlank c = false := by
  have hdigits : ∀ n < 58, 48 ≤ n → isBlank (Char.ofNat n) = false := by decide
  obtain ⟨hlow, hhigh⟩ : '0' ≤ c ∧ c ≤ '9' := by simpa [isDigit] using h
  rw [← Char.ofNat_toNat c]
  exact hdigits c.toNat (Nat.lt_succ_of_le (UInt32.le_iff_toNat_le.mp hhigh))
    (UInt32.le_iff_toNat_le.mp hlow)

/-- The text of an integer has no blanks around it. -/
theorem trim_intText (i : Int) : trim (Decimal.intText i) = Decimal.intText i := by
  have hdigits (n : Nat) : ∀ c ∈ (Decimal.natText n).toList, isBlank c = false := fun c hc =>
    isBlank_of_isDigit ((Decimal.digitList_natText n).all_isDigit c hc)
  refine trim_of_no_blank ?_
  cases i with
  | ofNat n => exact hdigits n
  | negSucc n =>
    rw [Decimal.intText, String.toList_append]
    exact List.forall_mem_cons.mpr ⟨by decide, hdigits (n + 1)⟩

end Text

namespace Value

/-- A truth value survives display and conversion back. -/
theorem convertTo_display_bool (b : Bool) :
    convertTo (.string (Value.bool b).display) .bool = .ok (.bool b) := by
  cases b <;> rfl

/-- The text of an integer is a numeral in the range of 64 bits. -/
theorem convertTo_display_int (i : Int64) :
    convertTo (.string (Value.int i).display) .int = .ok (.int i) := by
  apply convertTo_eq_ok
  unfold textToInt?
  simp only [display, Text.trim_intText, Decimal.readInt64?_intText]

/-- **Conversions are sound and stable**, from every value to every type, and the texts of all truth
values and of all integers convert back to them. -/
theorem conversion_sound :
    (∀ v t, ConvertsSoundly v t)
      ∧ (∀ b, convertTo (.string (Value.bool b).display) .bool = .ok (.bool b))
      ∧ ∀ i, convertTo (.string (Value.int i).display) .int = .ok (.int i) :=
  ⟨convertsSoundly, convertTo_display_bool, convertTo_display_int⟩

end Value

end CommandChain
