import CommandChain.Decimal.Numeral
import CommandChain.Script.Failure
import CommandChain.Script.Limits
import CommandChain.Text.Blank
/-!
# Tokens of scripts

A script is cut into numbers, texts, words and symbols. White space and comments separate tokens
and are dropped. A minus sign right before a digit belongs to the number unless an operand stands
in front of it.
-/

namespace CommandChain.Script

open CommandChain.Text

inductive Token where
  | int (i : Int64)
  | float (x : Float)
  | text (s : String)
  /-- A name or a keyword. -/
  | word (s : String)
  | symbol (s : String)

namespace Token

/-- The words that no variable can have as its name. -/
def keywords : List String :=
  ["let", "const", "if", "else", "while", "loop", "do", "until", "for", "in", "break", "continue",
    "fn", "private", "return", "throw", "try", "catch", "switch", "true", "false", "this",
    "import", "export", "as", "global"]

/-- Whether a token can end an operand. -/
def endsOperand : Token → Bool
  | int _ | float _ | text _ => true
  | word s => s == "true" || s == "false" || s == "this" || !keywords.contains s
  | symbol s => s == ")" || s == "]"

def startsWord (c : Char) : Bool :=
  ('a' ≤ c && c ≤ 'z') || ('A' ≤ c && c ≤ 'Z') || c == '_'

def continuesWord (c : Char) : Bool :=
  startsWord c || isDigit c

/-- Whether a character belongs to a run of digits. -/
def isDigitOrGap (c : Char) : Bool :=
  isDigit c || c == '_'

/-- The characters of a fraction behind the digits of a number, and what follows. A point that
starts a range or a name is not one of a fraction. -/
def fractionPart : List Char → List Char × List Char
  | '.' :: c :: rest =>
    if isDigit c then
      ('.' :: (c :: rest).takeWhile isDigitOrGap, (c :: rest).dropWhile isDigitOrGap)
    else if c == '.' || startsWord c then ([], '.' :: c :: rest)
    else (['.'], c :: rest)
  | ['.'] => (['.'], [])
  | rest => ([], rest)

/-- The characters of an exponent behind a number, and what follows. -/
def exponentPart : List Char → List Char × List Char
  | e :: rest =>
    let (sign, digits) := match rest with
      | '+' :: more => (['+'], more)
      | '-' :: more => (['-'], more)
      | more => ([], more)
    if (e == 'e' || e == 'E') && digits.head?.any isDigit then
      (e :: sign ++ digits.takeWhile isDigitOrGap, digits.dropWhile isDigitOrGap)
    else ([], e :: rest)
  | [] => ([], [])

/-- The number with a given sign at the start of a text that starts with a digit. A whole number
too large for an integer is a double. -/
def number? (sign : List Char) (cs : List Char) : Option (Token × List Char) :=
  let whole := cs.takeWhile isDigitOrGap
  let (fraction, rest) := fractionPart (cs.dropWhile isDigitOrGap)
  let (exponent, rest) := exponentPart rest
  let numeral := String.ofList (sign ++ (whole ++ fraction ++ exponent).filter (· != '_'))
  let integer := if fraction.isEmpty && exponent.isEmpty then Decimal.readInt64? numeral else none
  match integer with
  | some i => some (.int i, rest)
  | none => (Decimal.readFloat? numeral).map fun x => (.float x, rest)

def hexValue (digits : List Char) : Option Nat :=
  digits.foldl (fun value c => do return (← value) * 16 + (← hexValue? c)) (some 0)

/-- The character of an escape with that many hexadecimal digits, and what follows it. -/
def hexEscape? (width : Nat) (cs : List Char) : Option (Char × List Char) := do
  let digits := cs.take width
  if digits.length < width then none
  else
    let n ← hexValue digits
    if n.isValidChar then some (Char.ofNat n, cs.drop width) else none

/-- The character of an escape behind its backslash, and what follows it. -/
def escape? : List Char → Option (Char × List Char)
  | 'n' :: rest => some ('\n', rest)
  | 't' :: rest => some ('\t', rest)
  | 'r' :: rest => some ('\x0d', rest)
  | '\\' :: rest => some ('\\', rest)
  | '\x22' :: rest => some ('\x22', rest)
  | 'x' :: rest => hexEscape? 2 rest
  | 'u' :: rest => hexEscape? 4 rest
  | 'U' :: rest => hexEscape? 8 rest
  | _ => none

/-- The characters of a text up to its closing quotation mark, and what follows it. The fuel bounds
the number of characters. -/
def textBody? : Nat → List Char → Option (List Char × List Char)
  | 0, _ | _, [] => none
  | fuel + 1, c :: rest =>
    if c == '\x22' then some ([], rest)
    else if c == '\n' then none
    else if c == '\\' then do
      let (x, rest) ← escape? rest
      let (body, rest) ← textBody? fuel rest
      return (x :: body, rest)
    else do
      let (body, rest) ← textBody? fuel rest
      return (c :: body, rest)

/-- What follows a comment between marks, where `depth` comments are open. -/
def skipComment : Nat → List Char → Option (List Char)
  | 0, rest => some rest
  | _ + 1, [] => none
  | depth + 1, '*' :: '/' :: rest => skipComment depth rest
  | depth + 1, '/' :: '*' :: rest => skipComment (depth + 2) rest
  | depth + 1, _ :: rest => skipComment (depth + 1) rest

/-- The symbols, longer ones before those they start with. -/
def symbols : List String :=
  ["..=", "#\x7b", "..", "==", "!=", "<=", ">=", "&&", "||", "+=", "-=", "*=", "/=", "%=",
    "(", ")", "[", "]", "\x7b", "\x7d", ",", ";", ":", ".", "=", "<", ">", "+", "-", "*", "/",
    "%", "!"]

/-- The symbol at the start of a text, and what follows it. -/
def symbol? (cs : List Char) : Option (Token × List Char) :=
  (symbols.find? fun s => s.toList.isPrefixOf cs).map fun s => (.symbol s, cs.drop s.length)

/-- The token at the start of a text without a gap, and what follows it. -/
def first? (afterOperand : Bool) (cs : List Char) : Option (Token × List Char) :=
  match cs with
  | [] => none
  | '\x22' :: rest =>
    (textBody? rest.length.succ rest).map fun (body, rest) => (.text (String.ofList body), rest)
  | c :: rest =>
    if isDigit c then number? [] (c :: rest)
    else if c == '-' && !afterOperand && rest.head?.any isDigit then number? ['-'] rest
    else if startsWord c then
      some (.word (String.ofList ((c :: rest).takeWhile continuesWord)),
        (c :: rest).dropWhile continuesWord)
    else symbol? (c :: rest)

/-- The tokens of a text, given whether an operand stands in front of it. The fuel bounds the
number of tokens and gaps, and the length of the text suffices. -/
def list? : Nat → Bool → List Char → Option (List Token)
  | _, _, [] => some []
  | 0, _, _ :: _ => none
  | fuel + 1, afterOperand, '/' :: '/' :: rest =>
    list? fuel afterOperand (rest.dropWhile (· != '\n'))
  | fuel + 1, afterOperand, '/' :: '*' :: rest =>
    (skipComment 1 rest).bind (list? fuel afterOperand)
  | fuel + 1, afterOperand, c :: rest =>
    if isBlank c then list? fuel afterOperand rest
    else do
      let (token, rest) ← first? afterOperand (c :: rest)
      let tokens ← list? fuel token.endsOperand rest
      return token :: tokens

/-- The tokens of a script whose texts are at most as long as allowed. -/
def read (limits : Limits) (source : String) : Except Failure (List Token) :=
  let cs := source.toList
  match list? cs.length.succ false cs with
  | none => .error .badToken
  | some tokens =>
    let isTooLong : Token → Bool
      | text s => limits.textSize != 0 && limits.textSize < s.utf8ByteSize
      | _ => false
    if tokens.any isTooLong then .error .textTooLong else .ok tokens

end Token

end CommandChain.Script
