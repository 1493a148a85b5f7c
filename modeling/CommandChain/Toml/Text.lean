import CommandChain.Text.Ascii
/-!
# Texts in TOML

A text stands between one or three quotation marks. Double ones allow escapes; between three marks a
text may span several lines, the first line break is dropped and every other one is a line feed.
Control characters other than the tab have to be escaped.
-/

namespace CommandChain.Toml

open CommandChain.Text

/-- Whether a character is a blank within a line. -/
def isBlank (c : Char) : Bool :=
  c == ' ' || c == '\t'

/-- A text without the blanks at its start. -/
def skipBlanks (cs : List Char) : List Char :=
  cs.dropWhile isBlank

/-- What follows a line break at the start of a text. -/
def lineBreak? : List Char → Option (List Char)
  | '\n' :: rest => some rest
  | '\x0d' :: '\n' :: rest => some rest
  | _ => none

/-- Whether a character can stand for itself within a line. -/
def isPrintable (c : Char) : Bool :=
  c == '\t' || (0x20 ≤ c.toNat && c.toNat != 0x7F)

/-- The character of an escape with that many hexadecimal digits, and what follows it. -/
def hexEscape? (width : Nat) (cs : List Char) : Option (Char × List Char) := do
  let digits := cs.take width
  if digits.length < width then none
  else
    let n ← digits.foldl (fun value c => do return (← value) * 16 + (← hexValue? c)) (some 0)
    if n.isValidChar then some (Char.ofNat n, cs.drop width) else none

/-- The character of an escape behind its backslash, and what follows it. -/
def escape? : List Char → Option (Char × List Char)
  | 'b' :: rest => some ('\x08', rest)
  | 't' :: rest => some ('\t', rest)
  | 'n' :: rest => some ('\n', rest)
  | 'f' :: rest => some ('\x0c', rest)
  | 'r' :: rest => some ('\x0d', rest)
  | '\x22' :: rest => some ('\x22', rest)
  | '\\' :: rest => some ('\\', rest)
  | 'u' :: rest => hexEscape? 4 rest
  | 'U' :: rest => hexEscape? 8 rest
  | _ => none

/-- The characters of a text with escapes up to its quotation mark, and what follows it. The fuel
bounds their number. -/
def basicBody? : Nat → List Char → Option (List Char × List Char)
  | 0, _ | _, [] => none
  | fuel + 1, c :: rest =>
    if c == '\x22' then some ([], rest)
    else if c == '\\' then do
      let (x, rest) ← escape? rest
      let (body, rest) ← basicBody? fuel rest
      return (x :: body, rest)
    else if isPrintable c then do
      let (body, rest) ← basicBody? fuel rest
      return (c :: body, rest)
    else none

/-- The characters of a text without escapes up to its quotation mark, and what follows it. -/
def literalBody? : List Char → Option (List Char × List Char)
  | [] => none
  | c :: rest =>
    if c == '\'' then some ([], rest)
    else if isPrintable c then do
      let (body, rest) ← literalBody? rest
      return (c :: body, rest)
    else none

/-- What follows the blanks and line breaks at the start of a text. The fuel bounds their
number. -/
def skipGaps : Nat → List Char → List Char
  | 0, cs => cs
  | fuel + 1, cs =>
    let cs := skipBlanks cs
    match lineBreak? cs with
    | some rest => skipGaps fuel rest
    | none => cs

/-- The end of a text of several lines where its quotation marks stand: up to two of them that
belong to the text, and what follows the closing three. -/
def closing? (mark : Char) (cs : List Char) : Option (List Char × List Char) :=
  let marks := min (cs.takeWhile (· == mark)).length 5
  if marks < 3 then none else some (List.replicate (marks - 3) mark, cs.drop marks)

/-- The characters of a text of several lines with escapes, and what follows it. A backslash at the
end of a line drops all blanks and line breaks behind it. The fuel bounds the number of
characters. -/
def basicLines? : Nat → List Char → Option (List Char × List Char)
  | 0, _ | _, [] => none
  | fuel + 1, c :: rest =>
    match closing? '\x22' (c :: rest) with
    | some ending => some ending
    | none =>
      if c == '\\' then
        match lineBreak? (skipBlanks rest) with
        | some more => basicLines? fuel (skipGaps rest.length more)
        | none => do
          let (x, rest) ← escape? rest
          let (body, rest) ← basicLines? fuel rest
          return (x :: body, rest)
      else match lineBreak? (c :: rest) with
        | some rest => do
          let (body, rest) ← basicLines? fuel rest
          return ('\n' :: body, rest)
        | none =>
          if isPrintable c then do
            let (body, rest) ← basicLines? fuel rest
            return (c :: body, rest)
          else none

/-- The characters of a text of several lines without escapes, and what follows it. The fuel bounds
the number of characters. -/
def literalLines? : Nat → List Char → Option (List Char × List Char)
  | 0, _ | _, [] => none
  | fuel + 1, c :: rest =>
    match closing? '\'' (c :: rest) with
    | some ending => some ending
    | none =>
      match lineBreak? (c :: rest) with
      | some rest => do
        let (body, rest) ← literalLines? fuel rest
        return ('\n' :: body, rest)
      | none =>
        if isPrintable c then do
          let (body, rest) ← literalLines? fuel rest
          return (c :: body, rest)
        else none

/-- A text without the line break at its start. -/
def dropLineBreak (cs : List Char) : List Char :=
  (lineBreak? cs).getD cs

/-- The text of one line at the start, and what follows it. -/
def line? : List Char → Option (String × List Char)
  | '\x22' :: rest =>
    (basicBody? (rest.length + 1) rest).map fun (body, rest) => (String.ofList body, rest)
  | '\'' :: rest => (literalBody? rest).map fun (body, rest) => (String.ofList body, rest)
  | _ => none

/-- The text at the start, of one or several lines, and what follows it. -/
def text? : List Char → Option (String × List Char)
  | '\x22' :: '\x22' :: '\x22' :: rest =>
    (basicLines? (rest.length + 1) (dropLineBreak rest)).map fun (body, rest) =>
      (String.ofList body, rest)
  | '\'' :: '\'' :: '\'' :: rest =>
    (literalLines? (rest.length + 1) (dropLineBreak rest)).map fun (body, rest) =>
      (String.ofList body, rest)
  | cs => line? cs

/-- Whether a character can stand in a name without quotation marks. -/
def isBare (c : Char) : Bool :=
  ('a' ≤ c && c ≤ 'z') || ('A' ≤ c && c ≤ 'Z') || isDigit c || c == '_' || c == '-'

/-- The name at the start, and what follows it. -/
def name? (cs : List Char) : Option (String × List Char) :=
  match line? cs with
  | some found => some found
  | none =>
    let run := cs.takeWhile isBare
    if run.isEmpty then none else some (String.ofList run, cs.dropWhile isBare)

end CommandChain.Toml
