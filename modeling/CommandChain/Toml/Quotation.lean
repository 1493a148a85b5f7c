import CommandChain.Json.Writer
import CommandChain.Toml.Text
/-!
# Writing texts in TOML

A text is written in the plainest quotation that can hold it. Escapes are the last resort: they are
used where a control character has to be written, or where no other quotation will do.
-/

namespace CommandChain.Toml

/-- What surrounds a text. -/
inductive Quotation where
  /-- One double mark; escapes are possible. -/
  | basic
  /-- One single mark, without escapes. -/
  | literal
  /-- Three double marks; escapes are possible. -/
  | basicLines
  /-- Three single marks, without escapes. -/
  | literalLines
deriving DecidableEq

/-- Whether a character can be written only with an escape, in whatever quotation. -/
def isControl (c : Char) : Bool :=
  c != '\n' && !isPrintable c

/-- The length of the longest run of a character in a text. -/
def longestRun (mark : Char) (cs : List Char) : Nat :=
  (cs.foldl (fun (run, best) c => if c == mark then (run + 1, max best (run + 1)) else (0, best))
    (0, 0)).2

namespace Quotation

/-- The quotation of a text that is a value. -/
def ofText (cs : List Char) : Quotation :=
  let spans := cs.contains '\n'
  let escaping := if spans then basicLines else basic
  if cs.any isControl then escaping
  else if !cs.contains '\\' && !cs.contains '\x22' && !spans then basic
  else if !cs.contains '\'' && !spans then literal
  else if !cs.contains '\\' && longestRun '\x22' cs ≤ 2 then basicLines
  else if longestRun '\'' cs ≤ 2 then literalLines
  else escaping

/-- The quotation of a name. -/
def ofName (cs : List Char) : Quotation :=
  if cs.all isPrintable then
    if !cs.contains '\\' && !cs.contains '\x22' then basic
    else if !cs.contains '\'' then literal
    else basic
  else basic

/-- The marks on either side. -/
def marks : Quotation → List Char
  | basic => ['\x22']
  | literal => ['\'']
  | basicLines => ['\x22', '\x22', '\x22']
  | literalLines => ['\'', '\'', '\'']

end Quotation

def escapeChar (c : Char) : List Char :=
  if c == '\x08' then ['\\', 'b']
  else if c == '\t' then ['\\', 't']
  else if c == '\n' then ['\\', 'n']
  else if c == '\x0c' then ['\\', 'f']
  else if c == '\x0d' then ['\\', 'r']
  else if c == '\x22' then ['\\', '\x22']
  else if c == '\\' then ['\\', '\\']
  else if isControl c then
    ['\\', 'u', '0', '0', (Json.hexDigit (c.toNat / 16)).toUpper,
      (Json.hexDigit (c.toNat % 16)).toUpper]
  else [c]

/-- The characters of a text between three double marks: line breaks stand for themselves, and so
do up to two double marks in a row. -/
def escapeLines : Nat → List Char → List Char
  | _, [] => []
  | run, c :: rest =>
    if c == '\n' then c :: escapeLines 0 rest
    else if c == '\x22' && run < 2 then c :: escapeLines (run + 1) rest
    else escapeChar c ++ escapeLines 0 rest

/-- The characters of a text between the marks of a quotation. -/
def Quotation.body (cs : List Char) : Quotation → List Char
  | basic => cs.flatMap escapeChar
  | literal | literalLines => cs
  | basicLines => escapeLines 0 cs

/-- The written form of a text in a quotation. Between three marks, a text with line breaks starts
on a line of its own. -/
def Quotation.write (q : Quotation) (cs : List Char) : List Char :=
  let spans := q != basic && q != literal && cs.contains '\n'
  q.marks ++ (if spans then ['\n'] else []) ++ q.body cs ++ q.marks

/-- The written form of a text. -/
def quote (s : String) : List Char :=
  (Quotation.ofText s.toList).write s.toList

def quoteName (s : String) : List Char :=
  let cs := s.toList
  if !cs.isEmpty && cs.all isBare then cs else (Quotation.ofName cs).write cs

end CommandChain.Toml
