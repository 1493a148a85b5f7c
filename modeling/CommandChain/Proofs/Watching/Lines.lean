import CommandChain.CommandLine
import Mathlib.Data.List.Basic
/-!
# A document is one line

The compact text of a document holds no control character: in texts they are escaped, and numbers are
written in digits, signs and points. So a document that is written as a line stays one.
-/

namespace CommandChain

/-- No control character below the blank is among these characters. -/
def Unbroken (cs : List Char) : Prop :=
  ∀ c ∈ cs, ' '.toNat ≤ c.toNat

instance (cs : List Char) : Decidable (Unbroken cs) :=
  List.decidableBAll (fun c : Char => ' '.toNat ≤ c.toNat) cs

namespace Unbroken

variable {cs ds : List Char} {c : Char}

theorem nil : Unbroken [] := List.forall_mem_nil _

theorem cons (hc : ' '.toNat ≤ c.toNat) (h : Unbroken cs) : Unbroken (c :: cs) :=
  List.forall_mem_cons.mpr ⟨hc, h⟩

theorem append (h : Unbroken cs) (h' : Unbroken ds) : Unbroken (cs ++ ds) :=
  List.forall_mem_append.mpr ⟨h, h'⟩

/-- Characters among others that have no control character have none either. -/
theorem subset (h : Unbroken cs) (hsub : ds ⊆ cs) : Unbroken ds :=
  fun c hc => h c (hsub hc)

theorem zeros (n : Nat) : Unbroken (List.replicate n '0') := by
  intro c hc
  rw [List.eq_of_mem_replicate hc]
  decide

/-- A text chosen between two that have no control character has none. -/
theorem ite {p : Prop} [Decidable p] {s t : String} (hs : Unbroken s.toList)
    (ht : Unbroken t.toList) : Unbroken (if p then s else t).toList := by
  split
  · exact hs
  · exact ht

end Unbroken

/-! ## Numbers -/

namespace Decimal

/-- The decimal form of a number has no control character. -/
theorem unbroken_natText (n : Nat) : Unbroken (natText n).toList := by
  intro c hc
  rw [natText, Nat.toList_repr] at hc
  have hdigit := Nat.isDigit_of_mem_toDigits (by decide) (by decide) hc
  exact Nat.le_trans (by decide) (Char.isDigit_iff_toNat.mp hdigit).1

theorem unbroken_intText (i : Int) : Unbroken (intText i).toList := by
  cases i with
  | ofNat n => exact unbroken_natText n
  | negSucc n =>
    rw [intText, String.toList_append]
    exact .append (.cons (by decide) .nil) (unbroken_natText (n + 1))

/-- The plain form of a decimal has no control character. -/
theorem unbroken_positional (d : Digits) {mark : String} (hmark : Unbroken mark.toList) :
    Unbroken (d.positional mark).toList := by
  have hdigits := unbroken_natText d.digits
  have hpadded := (Unbroken.zeros ((-d.scale).toNat + 1 - (natText d.digits).toList.length)).append
    hdigits
  unfold Digits.positional
  simp only
  split
  · rw [String.toList_append, String.toList_ofList]
    exact .append (.append hdigits (.zeros _)) hmark
  · simp only [String.toList_append, String.toList_ofList]
    exact .append (.append (hpadded.subset (List.take_subset _ _)) (by decide))
      (hpadded.subset (List.drop_subset _ _))

/-- The scientific form of a decimal has no control character. -/
theorem unbroken_scientific (d : Digits) (exponent : Int) :
    Unbroken (d.scientific exponent).toList := by
  have hdigits := unbroken_natText d.digits
  have hfraction : Unbroken ("." ++ String.ofList ((natText d.digits).toList.drop 1)).toList := by
    simp only [String.toList_append, String.toList_ofList]
    exact .append (by decide) (hdigits.subset (List.drop_subset _ _))
  unfold Digits.scientific
  simp only [String.toList_append, String.toList_ofList]
  refine .append (.append (.append (.append ?_ ?_) (by decide)) ?_) (unbroken_natText _)
  · exact hdigits.subset (List.take_subset _ _)
  · exact .ite (by decide) hfraction
  · exact .ite (by decide) (by decide)

/-- The text of a finite number has no control characters, if the mark of whole numbers has none. -/
theorem unbroken_finite (layout : Layout) (hmark : Unbroken layout.wholeMark.toList) (x : Float) :
    Unbroken (layout.finite x).toList := by
  have hmagnitude (b : Binary) : Unbroken (layout.magnitude b).toList :=
    .ite (unbroken_positional _ hmark) (unbroken_scientific _ _)
  unfold Layout.finite
  rw [String.toList_append]
  exact .append (.ite (by decide) (by decide)) (hmagnitude _)

end Decimal

/-! ## Documents -/

namespace Json

theorem unbroken_hexDigit {n : Nat} (h : n < 16) : ' '.toNat ≤ (hexDigit n).toNat := by
  revert n
  decide

/-- The escape of a character has no control character. -/
theorem unbroken_escapeChar (c : Char) : Unbroken (escapeChar c) := by
  unfold escapeChar
  -- A control character is written in hexadecimal digits, unless it has a short form.
  by_cases hcontrol : c.toNat < 0x20
  · have hhex : Unbroken ['\\', 'u', '0', '0', hexDigit (c.toNat / 16), hexDigit (c.toNat % 16)] :=
      .append (by decide : Unbroken ['\\', 'u', '0', '0'])
        (.cons (unbroken_hexDigit (by omega)) (.cons (unbroken_hexDigit (by omega)) .nil))
    rw [if_pos hcontrol]
    split_ifs <;> first | exact hhex | decide
  · rw [if_neg hcontrol]
    split_ifs <;> first | exact .cons (Nat.le_of_not_lt hcontrol) .nil | decide

/-- A quoted text has no control character, as those in the text are escaped. -/
theorem unbroken_quote (s : String) : Unbroken (quote s) := by
  refine .cons (by decide) (.append (fun c hc => ?_) (by decide))
  obtain ⟨d, -, hd⟩ := List.mem_flatMap.mp hc
  exact unbroken_escapeChar d c hd

mutual
/-- The compact text of a document has no control characters. -/
theorem unbroken_chars : ∀ j : Json, Unbroken (chars j)
  | .null => by decide
  | .bool true => by decide
  | .bool false => by decide
  | .int i => Decimal.unbroken_intText i
  | .float x => by
    unfold chars
    split
    · exact Decimal.unbroken_finite numberLayout (by decide) x
    · decide
  | .string s => unbroken_quote s
  | .array items => .cons (by decide) (unbroken_charsItems items)
  | .object members => .cons (by decide) (unbroken_charsMembers members)

theorem unbroken_charsItems : ∀ items : List Json, Unbroken (charsItems items)
  | [] => by decide
  | [j] => .append (unbroken_chars j) (.cons (by decide) .nil)
  | j :: next :: rest =>
    .append (unbroken_chars j) (.cons (by decide) (unbroken_charsItems (next :: rest)))

theorem unbroken_charsMembers : ∀ members : List (String × Json), Unbroken (charsMembers members)
  | [] => by decide
  | [(name, j)] => .append (unbroken_quote name)
    (.cons (by decide) (.append (unbroken_chars j) (.cons (by decide) .nil)))
  | (name, j) :: next :: rest => .append (unbroken_quote name)
    (.cons (by decide) (.append (unbroken_chars j)
      (.cons (by decide) (unbroken_charsMembers (next :: rest)))))
end

end Json

end CommandChain
