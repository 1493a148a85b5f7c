import CommandChain.Json.Number
/-!
# Reading JSON

A strict reader: no comments, no trailing commas, no unescaped control characters in texts, and
every escape names a character.
-/

namespace CommandChain.Json

open CommandChain.Text

/-- Whether a character may stand between the parts of a document. -/
def isGap (c : Char) : Bool :=
  c == ' ' || c == '\n' || c == '\t' || c == '\x0d'

/-- A text without the gap at its start. -/
def skipGap (cs : List Char) : List Char :=
  cs.dropWhile isGap

/-- The value of four hexadecimal digits. -/
def hex4? (a b c d : Char) : Option Nat := do
  let a ← hexValue? a
  let b ← hexValue? b
  let c ← hexValue? c
  let d ← hexValue? d
  return ((a * 16 + b) * 16 + c) * 16 + d

/-- The character of an escape of one letter. -/
def simpleEscape? (c : Char) : Option Char :=
  if c == '\x22' then some '\x22'
  else if c == '\\' then some '\\'
  else if c == '/' then some '/'
  else if c == 'b' then some '\x08'
  else if c == 'f' then some '\x0c'
  else if c == 'n' then some '\n'
  else if c == 'r' then some '\x0d'
  else if c == 't' then some '\t'
  else none

/-- The character of two 16-bit units that stand for one. -/
def pairChar? (high low : Nat) : Option Char :=
  if 0xD800 ≤ high && high < 0xDC00 && 0xDC00 ≤ low && low < 0xE000 then
    some (Char.ofNat (0x10000 + (high - 0xD800) * 0x400 + (low - 0xDC00)))
  else none

/-- The character of one 16-bit unit that stands for itself. -/
def unitChar? (n : Nat) : Option Char :=
  if 0xD800 ≤ n && n < 0xE000 then none else some (Char.ofNat n)

/-- The characters up to the closing quotation mark, and what follows it. -/
def textBody? : List Char → Option (List Char × List Char)
  | [] => none
  | '\\' :: 'u' :: a :: b :: c :: d :: '\\' :: 'u' :: e :: f :: g :: h :: rest => do
    let first ← hex4? a b c d
    match unitChar? first with
    | some x =>
      let (body, rest) ← textBody? ('\\' :: 'u' :: e :: f :: g :: h :: rest)
      return (x :: body, rest)
    | none =>
      let x ← pairChar? first (← hex4? e f g h)
      let (body, rest) ← textBody? rest
      return (x :: body, rest)
  | '\\' :: 'u' :: a :: b :: c :: d :: rest => do
    let x ← unitChar? (← hex4? a b c d)
    let (body, rest) ← textBody? rest
    return (x :: body, rest)
  | '\\' :: c :: rest => do
    let x ← simpleEscape? c
    let (body, rest) ← textBody? rest
    return (x :: body, rest)
  | c :: rest =>
    if c == '\x22' then some ([], rest)
    else if c == '\\' || c.toNat < 0x20 then none
    else do
      let (body, rest) ← textBody? rest
      return (c :: body, rest)

/-- The text at the start, in quotation marks, and what follows it. -/
def text? : List Char → Option (String × List Char)
  | '\x22' :: rest => (textBody? rest).map fun (body, rest) => (String.ofList body, rest)
  | _ => none

mutual
/-- The document at the start of a text without a gap, and what follows it. The fuel bounds the
number of nested calls, and a length of the text suffices. -/
def value? : Nat → List Char → Option (Json × List Char)
  | 0, _ => none
  | fuel + 1, cs =>
    match cs with
    | 'n' :: 'u' :: 'l' :: 'l' :: rest => some (.null, rest)
    | 't' :: 'r' :: 'u' :: 'e' :: rest => some (.bool true, rest)
    | 'f' :: 'a' :: 'l' :: 's' :: 'e' :: rest => some (.bool false, rest)
    | '\x22' :: rest => (text? ('\x22' :: rest)).map fun (s, rest) => (.string s, rest)
    | '[' :: rest =>
      match skipGap rest with
      | ']' :: rest => some (.array [], rest)
      | rest => (items? fuel rest).map fun (items, rest) => (.array items, rest)
    | '\x7b' :: rest =>
      match skipGap rest with
      | '\x7d' :: rest => some (.object [], rest)
      | rest => (members? fuel rest).map fun (members, rest) => (.object members, rest)
    | rest => (numberText? rest).map fun (n, rest) => (n.json, rest)
/-- The elements of a nonempty array up to its closing bracket. -/
def items? : Nat → List Char → Option (List Json × List Char)
  | 0, _ => none
  | fuel + 1, cs => do
    let (first, rest) ← value? fuel cs
    match skipGap rest with
    | ']' :: rest => return ([first], rest)
    | ',' :: rest =>
      let (items, rest) ← items? fuel (skipGap rest)
      return (first :: items, rest)
    | _ => none
/-- The members of a nonempty object up to its closing brace. -/
def members? : Nat → List Char → Option (List (String × Json) × List Char)
  | 0, _ => none
  | fuel + 1, cs => do
    let (name, rest) ← text? cs
    match skipGap rest with
    | ':' :: rest =>
      let (first, rest) ← value? fuel (skipGap rest)
      match skipGap rest with
      | '\x7d' :: rest => return ([(name, first)], rest)
      | ',' :: rest =>
        let (members, rest) ← members? fuel (skipGap rest)
        return ((name, first) :: members, rest)
      | _ => none
    | _ => none
end

/-- The document a text holds, with nothing but gaps around it. -/
def read? (s : String) : Option Json := do
  let cs := skipGap s.toList
  let (j, rest) ← value? (cs.length + 1) cs
  if (skipGap rest).isEmpty then some j else none

end CommandChain.Json
