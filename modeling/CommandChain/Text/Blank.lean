/-!
# White space and trimming

The white space of the Unicode standard, twenty-five code points, and the removal of it from both
ends of a text.
-/

namespace CommandChain.Text

/-- Whether `c` has the White_Space property. -/
def isBlank (c : Char) : Bool :=
  let n := c.toNat
  (0x9 ≤ n && n ≤ 0xD) || n == 0x20 || n == 0x85 || n == 0xA0 || n == 0x1680
    || (0x2000 ≤ n && n ≤ 0x200A) || n == 0x2028 || n == 0x2029 || n == 0x202F
    || n == 0x205F || n == 0x3000

/-- The characters without the white space at either end. -/
def trimChars (cs : List Char) : List Char :=
  ((cs.dropWhile isBlank).reverse.dropWhile isBlank).reverse

/-- `s` without the white space at either end. -/
def trim (s : String) : String :=
  String.ofList (trimChars s.toList)

/-- `s` without the dashes it starts with. -/
def dropDashes (s : String) : String :=
  String.ofList (s.toList.dropWhile (· == '-'))

end CommandChain.Text
