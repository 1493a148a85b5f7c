import CommandChain.Decimal.Numeral
import CommandChain.Toml.Basic
/-!
# Numbers, dates and times in TOML

Underscores may stand between digits. Integers have 64 bits; in the bases 16, 8 and 2 they have no
sign. A number with a fraction or an exponent is a double, and one too large for a double is no
number. Dates and times follow the calendar; a second may be a leap second.
-/

namespace CommandChain.Toml

open CommandChain.Text

/-- The digits at the start of a text, without the underscores between them, and what follows. -/
def digits? (isOne : Char → Bool) : List Char → Option (List Char × List Char)
  | [] => none
  | c :: rest =>
    if isOne c then
      match rest with
      | '_' :: more => (digits? isOne more).map fun (run, rest) => (c :: run, rest)
      | more =>
        if more.head?.any isOne then (digits? isOne more).map fun (run, rest) => (c :: run, rest)
        else some ([c], more)
    else none

/-- The sign at the start of a text, if there is one, and what follows. -/
def sign : List Char → List Char × List Char
  | '+' :: rest => (['+'], rest)
  | '-' :: rest => (['-'], rest)
  | rest => ([], rest)

/-- The digits of a decimal integer without a leading zero, and what follows. -/
def wholePart? : List Char → Option (List Char × List Char)
  | '0' :: rest => some (['0'], rest)
  | rest => digits? isDigit rest

/-- An integer in the range of 64 bits. -/
def ranged? (i : Int) : Option Toml :=
  (Decimal.int64? i).map fun i => .int i.toInt

/-- The integer of some digits in a base. -/
def inBase? (base : Nat) (isOne : Char → Bool) (cs : List Char) : Option (Toml × List Char) := do
  let (run, rest) ← digits? isOne cs
  let n := run.foldl (fun value c => value * base + (hexValue? c).getD 0) 0
  return (← ranged? n, rest)

/-- The exponent at the start of a text, and what follows. -/
def exponent? : List Char → Option (List Char × List Char)
  | e :: rest =>
    if e == 'e' || e == 'E' then do
      let (mark, rest) := sign rest
      let (run, rest) ← digits? isDigit rest
      return (e :: mark ++ run, rest)
    else none
  | [] => none

/-- Whether an exponent mark comes next. -/
def atExponent (cs : List Char) : Bool :=
  cs.head?.any fun c => c == 'e' || c == 'E'

/-- The double of a numeral, unless it is too large. -/
def double? (numeral : List Char) : Option Toml :=
  match Decimal.readFloat? (String.ofList numeral) with
  | some x =>
    if !Decimal.isFinite x && !Decimal.isNegative x then none else some (.float x)
  | none => none

/-- The number in base ten at the start of a text, and what follows. -/
def decimal? (cs : List Char) : Option (Toml × List Char) := do
  let (mark, rest) := sign cs
  match rest with
  | 'i' :: 'n' :: 'f' :: rest =>
    let x := Float.ofBits 0x7FF0000000000000
    return (.float (if mark == ['-'] then -x else x), rest)
  | 'n' :: 'a' :: 'n' :: rest =>
    let x := Float.ofBits 0x7FF8000000000000
    return (.float (if mark == ['-'] then -x else x), rest)
  | rest =>
    let (whole, rest) ← wholePart? rest
    if atExponent rest then
      let (exponent, rest) ← exponent? rest
      return (← double? (mark ++ whole ++ exponent), rest)
    else match rest with
      | '.' :: rest =>
        let (fraction, rest) ← digits? isDigit rest
        if atExponent rest then
          let (exponent, rest) ← exponent? rest
          return (← double? (mark ++ whole ++ '.' :: fraction ++ exponent), rest)
        else return (← double? (mark ++ whole ++ '.' :: fraction), rest)
      | rest =>
        let i ← Decimal.integerNumeral? (mark ++ whole)
        return (← ranged? i, rest)

/-- The number at the start of a text, and what follows. -/
def number? : List Char → Option (Toml × List Char)
  | '0' :: 'x' :: rest => inBase? 16 (fun c => (hexValue? c).isSome) rest
  | '0' :: 'o' :: rest => inBase? 8 (fun c => '0' ≤ c && c ≤ '7') rest
  | '0' :: 'b' :: rest => inBase? 2 (fun c => c == '0' || c == '1') rest
  | cs => decimal? cs

/-! ## Dates and times -/

/-- The number of exactly that many digits between two bounds, and what follows. -/
def counted? (width least greatest : Nat) (cs : List Char) : Option (Nat × List Char) :=
  let run := cs.take width
  let n := Decimal.digitsValue run
  if run.length == width && run.all isDigit && least ≤ n && n ≤ greatest then
    some (n, cs.drop width)
  else none

def daysOf (year month : Nat) : Nat :=
  if month == 2 then
    if year % 4 == 0 && (year % 100 != 0 || year % 400 == 0) then 29 else 28
  else if month == 4 || month == 6 || month == 9 || month == 11 then 30
  else 31

/-- What follows a character that has to come first. -/
def expect? (c : Char) : List Char → Option (List Char)
  | d :: rest => if c == d then some rest else none
  | [] => none

/-- The date at the start of a text, as its characters, and what follows. -/
def date? (cs : List Char) : Option (List Char × List Char) := do
  let (year, rest) ← counted? 4 0 9999 cs
  let (month, rest) ← counted? 2 1 12 (← expect? '-' rest)
  let (_, rest) ← counted? 2 1 (daysOf year month) (← expect? '-' rest)
  return (cs.take 10, rest)

/-- The fraction of a second at the start of a text, in at most nine digits without zeros at the
end, and what follows. -/
def secondFraction : List Char → List Char × List Char
  | '.' :: rest =>
    let run := (rest.takeWhile isDigit).take 9
    let kept := (run.reverse.dropWhile (· == '0')).reverse
    if run.isEmpty then ([], '.' :: rest)
    else (if kept.isEmpty then [] else '.' :: kept, rest.dropWhile isDigit)
  | rest => ([], rest)

/-- The time of day at the start of a text, as its characters, and what follows. -/
def time? (cs : List Char) : Option (List Char × List Char) := do
  let (_, rest) ← counted? 2 0 23 cs
  let (_, rest) ← counted? 2 0 59 (← expect? ':' rest)
  let (_, rest) ← counted? 2 0 60 (← expect? ':' rest)
  let (fraction, rest) := secondFraction rest
  return (cs.take 8 ++ fraction, rest)

/-- The offset from universal time at the start of a text, if there is one, as its characters, and
what follows. -/
def offset? : List Char → Option (List Char × List Char)
  | 'Z' :: rest | 'z' :: rest => some (['Z'], rest)
  | c :: rest =>
    if c == '+' || c == '-' then do
      let (hours, more) ← counted? 2 0 23 rest
      let (minutes, more) ← counted? 2 0 59 (← expect? ':' more)
      let mark := if hours == 0 && minutes == 0 then '+' else c
      return (mark :: rest.take 5, more)
    else some ([], c :: rest)
  | [] => some ([], [])

/-- Whether a time of day starts here. -/
def atTime (cs : List Char) : Bool :=
  (cs.take 2).length == 2 && (cs.take 2).all isDigit && (cs.drop 2).head? == some ':'

/-- Whether a date starts here. -/
def atDate (cs : List Char) : Bool :=
  (cs.take 4).length == 4 && (cs.take 4).all isDigit && (cs.drop 4).head? == some '-'

/-- The date or time at the start of a text, and what follows. -/
def dateTime? (cs : List Char) : Option (Toml × List Char) :=
  if atDate cs then do
    let (date, rest) ← date? cs
    match rest with
    | c :: more =>
      if (c == 'T' || c == 't' || c == ' ') && atTime more then
        let (time, more) ← time? more
        let (offset, more) ← offset? more
        return (ofDateTime (String.ofList (date ++ 'T' :: time ++ offset)), more)
      else return (ofDateTime (String.ofList date), rest)
    | [] => return (ofDateTime (String.ofList date), rest)
  else do
    let (time, rest) ← time? cs
    return (ofDateTime (String.ofList time), rest)

end CommandChain.Toml
