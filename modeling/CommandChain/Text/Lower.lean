import CommandChain.Text.LowerTable
import CommandChain.Text.CasedTable
/-!
# Lower case by the Unicode standard

The full lower-case mapping of a text. It works character by character with two exceptions: U+0130
becomes two characters, and a capital sigma becomes the final form when a cased letter stands
before it and none after it, case-ignorable characters being skipped on both sides.
-/

namespace CommandChain.Text

/-- The lower-case form of one character, where that is a single character. -/
def lowerChar (c : Char) : Char :=
  if c.toNat < 0x80 then c.toLower
  else match lowerRuns.find? (·.covers c.toNat) with
    | some run => Char.ofNat (c.toNat + run.shift).toNat
    | none => c

/-- Whether the first character that is not case-ignorable is a cased letter. -/
def startsCased : List Char → Bool
  | [] => false
  | c :: rest =>
    if inRanges ignorableRanges c.toNat then startsCased rest
    else inRanges casedRanges c.toNat

/-- The lower-case form of `rest`, where `before` holds the characters in front of it, nearest
first. -/
def lowerAfter (before : List Char) : List Char → List Char
  | [] => []
  | c :: rest =>
    let lowered :=
      if c.toNat == 0x130 then [Char.ofNat 0x69, Char.ofNat 0x307]
      else if c.toNat == 0x3A3 then
        if startsCased before && !startsCased rest then [Char.ofNat 0x3C2] else [Char.ofNat 0x3C3]
      else [lowerChar c]
    lowered ++ lowerAfter (c :: before) rest

/-- The lower-case form of a text, as its characters. -/
def lowerChars (s : String) : List Char :=
  lowerAfter [] s.toList

end CommandChain.Text
