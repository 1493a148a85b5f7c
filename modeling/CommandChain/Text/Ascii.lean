/-!
# Text compared without regard to ASCII case

Names of commands, parameters and properties are matched with the letters `A` to `Z` lowered and
every other character as it is.
-/

namespace CommandChain.Text

/-- The characters of `s` with the letters `A` to `Z` lowered. -/
def foldCase (s : String) : List Char :=
  s.toList.map Char.toLower

/-- `s` with the letters `A` to `Z` lowered. -/
def lowerAscii (s : String) : String :=
  String.ofList (foldCase s)

/-- Whether two texts agree up to ASCII case. -/
def sameName (s t : String) : Bool :=
  foldCase s == foldCase t

/-- Whether `s` starts with `start` up to ASCII case. -/
def startsWithName (start s : String) : Bool :=
  (foldCase start).isPrefixOf (foldCase s)

/-- Whether `c` is one of the digits `0` to `9`. -/
def isDigit (c : Char) : Bool :=
  '0' ≤ c && c ≤ '9'

def digitValue (c : Char) : Nat :=
  c.toNat - '0'.toNat

/-- The value of a hexadecimal digit in either case. -/
def hexValue? (c : Char) : Option Nat :=
  if isDigit c then some (digitValue c)
  else if 'a' ≤ c && c ≤ 'f' then some (c.toNat - 'a'.toNat + 10)
  else if 'A' ≤ c && c ≤ 'F' then some (c.toNat - 'A'.toNat + 10)
  else none

theorem sameName_refl (s : String) : sameName s s = true := by
  simp [sameName]

/-- Two names are the same exactly if they are up to ASCII case. -/
theorem sameName_iff {s t : String} : sameName s t = true ↔ foldCase s = foldCase t := by
  simp [sameName]

end CommandChain.Text
