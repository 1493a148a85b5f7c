import CommandChain.Decimal.Layout
import CommandChain.Json.Basic
/-!
# Writing JSON

The compact text of a document. Only the quotation mark, the backslash and the control characters
below the blank are escaped.
-/

namespace CommandChain.Json

/-- Numbers are written positionally from `1e-5` up to below `1e16`, whole ones with `.0`, and
otherwise with a signed exponent. -/
def numberLayout : Decimal.Layout :=
  { tie := .toEven, wholeMark := ".0", lowest := some (-5), highest := some 15 }

def hexDigit (n : Nat) : Char :=
  if n < 10 then Char.ofNat ('0'.toNat + n) else Char.ofNat ('a'.toNat + (n - 10))

/-- The written form of one character of a text. -/
def escapeChar (c : Char) : List Char :=
  if c == '\x22' then ['\\', '\x22']
  else if c == '\\' then ['\\', '\\']
  else if c == '\x08' then ['\\', 'b']
  else if c == '\x0c' then ['\\', 'f']
  else if c == '\n' then ['\\', 'n']
  else if c == '\x0d' then ['\\', 'r']
  else if c == '\t' then ['\\', 't']
  else if c.toNat < 0x20 then
    ['\\', 'u', '0', '0', hexDigit (c.toNat / 16), hexDigit (c.toNat % 16)]
  else [c]

/-- The characters of a text in quotation marks. -/
def quote (s : String) : List Char :=
  '\x22' :: (s.toList.flatMap escapeChar ++ ['\x22'])

mutual
/-- The characters of a document. -/
def chars : Json → List Char
  | .null => ['n', 'u', 'l', 'l']
  | .bool true => ['t', 'r', 'u', 'e']
  | .bool false => ['f', 'a', 'l', 's', 'e']
  | .int i => (Decimal.intText i).toList
  | .float x =>
    if Decimal.isFinite x then (numberLayout.finite x).toList else ['n', 'u', 'l', 'l']
  | .string s => quote s
  | .array items => '[' :: charsItems items
  | .object members => '\x7b' :: charsMembers members
/-- The elements of an array and its closing bracket. -/
def charsItems : List Json → List Char
  | [] => [']']
  | [j] => chars j ++ [']']
  | j :: rest => chars j ++ ',' :: charsItems rest
/-- The members of an object and its closing brace. -/
def charsMembers : List (String × Json) → List Char
  | [] => ['\x7d']
  | [(name, j)] => quote name ++ ':' :: (chars j ++ ['\x7d'])
  | (name, j) :: rest => quote name ++ ':' :: (chars j ++ ',' :: charsMembers rest)
end

/-- The compact text of a document. -/
def text (j : Json) : String :=
  String.ofList (chars j)

end CommandChain.Json
