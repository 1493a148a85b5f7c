/-!
# The order of texts

Texts are ordered by their code points, character by character, a text before its extensions. This
is also the order of their UTF-8 bytes.
-/

namespace CommandChain.Text

/-- The order of two characters by code point. -/
def compareChar (a b : Char) : Ordering :=
  compare a.toNat b.toNat

/-- The order of two lists of characters. -/
def compareChars : List Char → List Char → Ordering
  | [], [] => .eq
  | [], _ :: _ => .lt
  | _ :: _, [] => .gt
  | a :: as, b :: bs => (compareChar a b).then (compareChars as bs)

/-- The order of two texts. -/
def compareText (s t : String) : Ordering :=
  compareChars s.toList t.toList

end CommandChain.Text
