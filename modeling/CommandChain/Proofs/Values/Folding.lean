import CommandChain.Text.Ascii
import CommandChain.Text.Lower
import CommandChain.Text.Order
/-!
# Texts that agree up to ASCII case

Equality of texts folds the letters `A` to `Z`, their order the whole Unicode lower case. The second
does not see what the first has folded: texts that agree up to ASCII case have the same lower case,
the form of a final sigma included.
-/

namespace CommandChain.Text

variable {before rest cs ds : List Char} {s t : String}

/-- A function of characters that does not tell the two cases of an ASCII letter apart does not see
that a character has been folded, since all others stay what they are. -/
theorem toLower_unseen {α : Type} (f : Char → α)
    (hascii : ∀ n < 0x80, f (Char.ofNat n).toLower = f (Char.ofNat n)) (c : Char) :
    f c.toLower = f c := by
  by_cases hc : c.toNat < 0x80
  · rw [← Char.ofNat_toNat c]
    exact hascii _ hc
  · have hother : ¬ (c.val ≥ 'A'.val ∧ c.val ≤ 'Z'.val) := by
      rintro ⟨-, hle⟩
      exact hc (Nat.lt_of_le_of_lt (UInt32.le_iff_toNat_le.mp hle) (by decide))
    have hkept : c.toLower = c := dif_neg hother
    rw [hkept]

/-- The ranges that begin below U+0080. -/
def asciiRanges (ranges : List (Nat × Nat)) : List (Nat × Nat) :=
  ranges.filter fun range => range.1 < 0x80

/-- A range that begins beyond ASCII holds no ASCII character. -/
theorem inRanges_asciiRanges (ranges : List (Nat × Nat)) {n : Nat} (hn : n < 0x80) :
    inRanges (asciiRanges ranges) n = inRanges ranges n := by
  rw [inRanges, inRanges, asciiRanges, List.any_filter]
  congr 1
  funext ⟨first, last⟩
  by_cases hfirst : first < 0x80
  · simp [hfirst]
  · have hbeyond : ¬ first ≤ n := by omega
    simp [hfirst, hbeyond]

/-- Whether code points are in given ranges does not see folding if the few ASCII ranges do not. -/
theorem inRanges_toLower {ranges : List (Nat × Nat)}
    (hfold : ∀ n < 0x80, (Char.ofNat n).toNat < 0x80 ∧ (Char.ofNat n).toLower.toNat < 0x80
      ∧ inRanges (asciiRanges ranges) (Char.ofNat n).toLower.toNat
        = inRanges (asciiRanges ranges) (Char.ofNat n).toNat) (c : Char) :
    inRanges ranges c.toLower.toNat = inRanges ranges c.toNat := by
  refine toLower_unseen (fun c => inRanges ranges c.toNat) (fun n hn => ?_) c
  obtain ⟨hbound, hlower, heq⟩ := hfold n hn
  rw [← inRanges_asciiRanges ranges hbound, ← inRanges_asciiRanges ranges hlower, heq]

/-- Whether a character is ignored where case is decided does not depend on its ASCII case. -/
theorem inRanges_ignorable_toLower (c : Char) :
    inRanges ignorableRanges c.toLower.toNat = inRanges ignorableRanges c.toNat :=
  inRanges_toLower (by decide +kernel) c

/-- Whether a character is cased does not depend on its ASCII case. -/
theorem inRanges_cased_toLower (c : Char) :
    inRanges casedRanges c.toLower.toNat = inRanges casedRanges c.toNat :=
  inRanges_toLower (by decide +kernel) c

/-- Lowering a character undoes a change of its ASCII case. -/
theorem lowerChar_toLower (c : Char) : lowerChar c.toLower = lowerChar c :=
  toLower_unseen lowerChar (by decide +kernel) c

/-- Whether a cased letter comes next does not depend on ASCII case. -/
theorem startsCased_fold (cs : List Char) : startsCased (cs.map Char.toLower) = startsCased cs := by
  induction cs with
  | nil => rfl
  | cons c cs ih =>
    rw [List.map_cons, startsCased, startsCased, inRanges_ignorable_toLower, inRanges_cased_toLower, ih]

/-- The characters with a rule of their own are not ASCII, so that folding makes and hides none. -/
theorem lowerAfter_fold (before rest : List Char) :
    lowerAfter (before.map Char.toLower) (rest.map Char.toLower) = lowerAfter before rest := by
  induction rest generalizing before with
  | nil => rfl
  | cons c rest ih =>
    have hdotted : (c.toLower.toNat == 0x130) = (c.toNat == 0x130) :=
      toLower_unseen (·.toNat == 0x130) (by decide +kernel) c
    have hsigma : (c.toLower.toNat == 0x3A3) = (c.toNat == 0x3A3) :=
      toLower_unseen (·.toNat == 0x3A3) (by decide +kernel) c
    rw [List.map_cons, lowerAfter, lowerAfter, hdotted, hsigma, startsCased_fold, startsCased_fold,
      lowerChar_toLower, ← List.map_cons, ih]

/-- Texts that agree up to ASCII case have the same lower case. -/
theorem lowerChars_eq_of_sameName (h : sameName s t = true) : lowerChars s = lowerChars t := by
  have hfold : s.toList.map Char.toLower = t.toList.map Char.toLower := sameName_iff.mp h
  calc lowerAfter [] s.toList
      = lowerAfter [] (s.toList.map Char.toLower) := (lowerAfter_fold [] s.toList).symm
    _ = lowerAfter [] (t.toList.map Char.toLower) := by rw [hfold]
    _ = lowerAfter [] t.toList := lowerAfter_fold [] t.toList

/-! ## The order of texts -/

/-- Two characters compare as equal only if they are the same. -/
theorem compareChar_eq_iff {a b : Char} : compareChar a b = .eq ↔ a = b := by
  rw [compareChar, Nat.compare_eq_eq]
  exact Char.toNat_inj

/-- Two lists of characters compare as equal only if they are the same. -/
theorem compareChars_eq_iff : compareChars cs ds = .eq ↔ cs = ds := by
  induction cs generalizing ds with
  | nil => cases ds <;> simp [compareChars]
  | cons c cs ih =>
    cases ds with
    | nil => simp [compareChars]
    | cons d ds => simp [compareChars, compareChar_eq_iff, Ordering.then_eq_eq, ih]

end CommandChain.Text
