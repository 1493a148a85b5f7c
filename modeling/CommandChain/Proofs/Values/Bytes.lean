import CommandChain.Proofs.Values.Folding
import Mathlib.Order.Compare
import Mathlib.Tactic.SplitIfs
/-!
# The order of texts is that of their bytes

Texts are compared by their code points, character by character. UTF-8 keeps this order: the bytes of
two different characters differ before those of one of them end, and there the greater character has
the greater byte. So a list that is in the order of its texts is in the order of their bytes, too.
-/

namespace CommandChain.Text

open String (utf8EncodeChar)

variable {s t : String}

def bytes (s : String) : List UInt8 :=
  s.toUTF8.data.toList

/-- The bytes of a text are those of its characters, one after the other. -/
theorem bytes_eq (s : String) : bytes s = s.toList.flatMap utf8EncodeChar := by
  conv => lhs; rw [bytes, ← String.ofList_toList (s := s)]
  rw [String.toUTF8, String.toByteArray_ofList, List.utf8Encode, List.data_toByteArray,
    List.toList_toArray]

/-! ## Codes of numbers -/

/-- Codes of the numbers below a bound. Those of different numbers differ before one of them ends, and
there the greater number has the greater byte. -/
def Climbs (bound : Nat) (code : Nat → List UInt8) : Prop :=
  ∀ m n, m < n → n < bound → ∀ u v, code m ++ u < code n ++ v

/-- The smaller of two first bytes makes a list the smaller one. -/
theorem leading_lt {m n : Nat} (hmn : m < n) (hn : n < 256) (u v : List UInt8) :
    UInt8.ofNat m :: u < UInt8.ofNat n :: v := by
  rw [List.cons_lt_cons_iff, UInt8.lt_iff_toNat_lt, UInt8.toNat_ofNat', UInt8.toNat_ofNat']
  omega

/-- A byte with a mark codes the numbers that fit into the rest of it. -/
theorem climbs_leading (width mark : Nat) (h : width + mark ≤ 256) :
    Climbs width fun n => [UInt8.ofNat (n % width + mark)] := by
  intro m n hmn hn u v
  refine leading_lt ?_ ?_ u v
  · rw [Nat.mod_eq_of_lt hn, Nat.mod_eq_of_lt (Nat.lt_trans hmn hn)]
    omega
  · rw [Nat.mod_eq_of_lt hn]
    omega

/-- Six more bits go into a byte behind the others. -/
theorem Climbs.continued {bound : Nat} {code : Nat → List UInt8} (h : Climbs bound code) :
    Climbs (64 * bound) fun n => code (n / 64) ++ [UInt8.ofNat (n % 64 + 128)] := by
  intro m n hmn hn u v
  rw [List.append_assoc, List.append_assoc]
  rcases Nat.lt_or_eq_of_le (Nat.div_le_div_right (c := 64) (Nat.le_of_lt hmn)) with hless | hequal
  · exact h _ _ hless (Nat.div_lt_of_lt_mul hn) _ _
  · rw [hequal]
    exact List.append_left_lt (leading_lt (by omega) (by omega) u v)

/-! ## Characters and texts -/

/-- The bytes of characters are in the order of the characters, whatever follows them. -/
theorem utf8EncodeChar_lt {c d : Char} (h : c.toNat < d.toNat) (u v : List UInt8) :
    utf8EncodeChar c ++ u < utf8EncodeChar d ++ v := by
  have hd : d.toNat < 0x110000 := by
    rcases d.valid with hd | hd <;> (simp only [Char.toNat] at *; omega)
  have htwo := (climbs_leading 32 192 (by decide)).continued
  have hthree := (climbs_leading 16 224 (by decide)).continued.continued
  have hfour := (climbs_leading 8 240 (by decide)).continued.continued.continued
  simp only [Nat.div_div_eq_div_mul, Nat.reduceMul] at hthree hfour
  simp only [Char.toNat] at h hd
  simp only [utf8EncodeChar]
  -- The greater character does not take fewer bytes. Where it takes more, it leads with a greater one.
  split_ifs
  all_goals try omega
  · exact leading_lt h (by omega) u v
  · exact leading_lt (by omega) (by omega) _ _
  · exact leading_lt (by omega) (by omega) _ _
  · exact leading_lt (by omega) (by omega) _ _
  · exact htwo _ _ h (by omega) u v
  · exact leading_lt (by omega) (by omega) _ _
  · exact leading_lt (by omega) (by omega) _ _
  · exact hthree _ _ h (by omega) u v
  · exact leading_lt (by omega) (by omega) _ _
  · exact hfour _ _ h (by omega) u v

/-- The bytes of a character are not none. -/
theorem nil_lt_utf8EncodeChar (c : Char) (u : List UInt8) : [] < utf8EncodeChar c ++ u := by
  have hlength := String.length_utf8EncodeChar c
  cases hbytes : utf8EncodeChar c with
  | nil =>
    rw [hbytes] at hlength
    exact absurd hlength (Nat.ne_of_lt c.utf8Size_pos)
  | cons b bs => exact List.nil_lt_cons b (bs ++ u)

/-- The order of two lists of bytes is not changed by what both start with. -/
theorem compares_append_left {order : Ordering} {u v : List UInt8} (h : order.Compares u v)
    (w : List UInt8) : order.Compares (w ++ u) (w ++ v) := by
  cases order with
  | lt => exact List.append_left_lt (show u < v from h)
  | eq => exact congrArg (w ++ ·) h
  | gt => exact List.append_left_lt (show v < u from h)

/-- Lists of characters are in the order of their bytes. -/
theorem compareChars_bytes (cs ds : List Char) :
    (compareChars cs ds).Compares (cs.flatMap utf8EncodeChar) (ds.flatMap utf8EncodeChar) := by
  induction cs generalizing ds with
  | nil =>
    cases ds with
    | nil => exact rfl
    | cons d ds => exact nil_lt_utf8EncodeChar d _
  | cons c cs ih =>
    cases ds with
    | nil => exact nil_lt_utf8EncodeChar c _
    | cons d ds =>
      rw [compareChars, compareChar, List.flatMap_cons, List.flatMap_cons]
      rcases Nat.lt_trichotomy c.toNat d.toNat with hless | hequal | hmore
      · rw [Nat.compare_eq_lt.mpr hless]
        exact utf8EncodeChar_lt hless _ _
      · obtain rfl : c = d := Char.toNat_inj.mp hequal
        rw [Nat.compare_eq_eq.mpr rfl]
        exact compares_append_left (ih ds) _
      · rw [Nat.compare_eq_gt.mpr hmore]
        exact utf8EncodeChar_lt hmore _ _

/-- Texts are compared like their bytes. -/
theorem compareText_bytes (s t : String) : (compareText s t).Compares (bytes s) (bytes t) := by
  rw [bytes_eq, bytes_eq]
  exact compareChars_bytes s.toList t.toList

/-- Two texts are equal in the order of texts only if they are the same. -/
theorem compareText_eq_iff : compareText s t = .eq ↔ s = t :=
  compareChars_eq_iff.trans String.toList_inj

/-- A text that is less than another has the lesser bytes. -/
theorem bytes_lt_of_lt (h : compareText s t = .lt) : bytes s < bytes t := by
  have hbytes := compareText_bytes s t
  rwa [h] at hbytes

/-- A text that is greater than another has the greater bytes. -/
theorem bytes_lt_of_gt (h : compareText s t = .gt) : bytes t < bytes s := by
  have hbytes := compareText_bytes s t
  rwa [h] at hbytes

end CommandChain.Text
