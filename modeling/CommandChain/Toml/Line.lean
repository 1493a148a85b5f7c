import CommandChain.Toml.Number
import CommandChain.Toml.Section
import CommandChain.Toml.Text
/-!
# The lines of a TOML document

A document consists of headers and of entries, with blanks, comments and line breaks between them.
A value may span several lines inside an array or a text of several lines.
-/

namespace CommandChain.Toml

/-- A header or an entry: the names of the tables it leads through, and its own name. -/
inductive Line where
  /-- The header of a table. -/
  | table (path : List String) (name : String)
  /-- The header of a row of an array of tables. -/
  | row (path : List String) (name : String)
  /-- A named value. -/
  | entry (path : List String) (name : String) (v : Toml)

/-- The greatest number of names of a path, and the deepest nesting of arrays and tables in a
value. -/
def nestingLimit : Nat := 79

/-- The names at the start of a text, with points between them, and what follows. The fuel bounds
their number. -/
def names? : Nat → List Char → Option ((List String × String) × List Char)
  | 0, _ => none
  | fuel + 1, cs => do
    let (name, rest) ← name? (skipBlanks cs)
    match skipBlanks rest with
    | '.' :: rest =>
      let ((path, last), rest) ← names? fuel rest
      return ((name :: path, last), rest)
    | rest => return (([], name), rest)

/-- The path at the start of a text, and what follows it and its blanks. -/
def path? (cs : List Char) : Option ((List String × String) × List Char) :=
  names? nestingLimit cs

/-- What follows the comment at the start of a text. -/
def skipComment : List Char → List Char
  | '#' :: rest => rest.dropWhile isPrintable
  | rest => rest

/-- What follows the blanks, comments and line breaks at the start of a text, a comment counting
only with the line break behind it. The fuel bounds the number of lines. -/
def skipLines : Nat → List Char → List Char
  | 0, cs => cs
  | fuel + 1, cs =>
    let cs := skipBlanks cs
    match lineBreak? (skipComment cs) with
    | some rest => skipLines fuel rest
    | none => cs

/-- What follows a line that holds nothing more than blanks and a comment. -/
def lineEnd? (cs : List Char) : Option (List Char) :=
  match skipComment (skipBlanks cs) with
  | [] => some []
  | rest => lineBreak? rest

/-- The value at the start of a text that is no text, array or table itself, and what follows. -/
def plain? (cs : List Char) : Option (Toml × List Char) :=
  match cs with
  | 't' :: 'r' :: 'u' :: 'e' :: rest => some (.bool true, rest)
  | 'f' :: 'a' :: 'l' :: 's' :: 'e' :: rest => some (.bool false, rest)
  | _ => if atDate cs || atTime cs then dateTime? cs else number? cs

mutual
/-- The value at the start of a text, whose arrays and tables nest at most `depth` deep, and what
follows. The fuel bounds the number of nested calls; a length of the text suffices. -/
def value? : Nat → Nat → List Char → Option (Toml × List Char)
  | 0, _, _ => none
  | fuel + 1, depth, cs =>
    match cs with
    | '\x22' :: _ | '\'' :: _ => (text? cs).map fun (s, rest) => (.string s, rest)
    | '[' :: rest =>
      match depth with
      | 0 => none
      | depth + 1 => (items? fuel depth rest).map fun (items, rest) => (.array items, rest)
    | '\x7b' :: rest =>
      match depth, skipBlanks rest with
      | 0, _ => none
      | _ + 1, '\x7d' :: rest => some (.table [], rest)
      | depth + 1, rest =>
        (entries? fuel depth .empty rest).map fun (node, rest) => (node.toToml, rest)
    | _ => plain? cs
/-- The elements of an array up to its closing bracket. -/
def items? : Nat → Nat → List Char → Option (List Toml × List Char)
  | 0, _, _ => none
  | fuel + 1, depth, cs =>
    match skipLines (cs.length + 1) cs with
    | ']' :: rest => some ([], rest)
    | rest => do
      let (first, rest) ← value? fuel depth rest
      match skipLines (rest.length + 1) rest with
      | ']' :: rest => return ([first], rest)
      | ',' :: rest =>
        let (items, rest) ← items? fuel depth rest
        return (first :: items, rest)
      | _ => none
/-- The entries of a table within a line up to its closing brace, added to those before. -/
def entries? : Nat → Nat → Node → List Char → Option (Node × List Char)
  | 0, _, _, _ => none
  | fuel + 1, depth, node, cs => do
    let ((path, name), rest) ← path? cs
    let (v, rest) ← value? fuel depth (skipBlanks (← expect? '=' rest))
    let node ← node.insert path name v
    match skipBlanks rest with
    | '\x7d' :: rest => return (node, rest)
    | ',' :: rest => entries? fuel depth node rest
    | _ => none
end

/-- The header at the start of a text behind its first bracket, and what follows its line. -/
def header? : List Char → Option (Line × List Char)
  | '[' :: rest => do
    let ((path, name), rest) ← path? rest
    return (.row path name, ← lineEnd? (← expect? ']' (← expect? ']' rest)))
  | rest => do
    let ((path, name), rest) ← path? rest
    return (.table path name, ← lineEnd? (← expect? ']' rest))

/-- The entry at the start of a text, and what follows its line. -/
def entry? (cs : List Char) : Option (Line × List Char) := do
  let ((path, name), rest) ← path? cs
  let rest := skipBlanks (← expect? '=' rest)
  let (v, rest) ← value? (2 * rest.length + 1) nestingLimit rest
  return (.entry path name v, ← lineEnd? rest)

/-- The lines of a text. The fuel bounds their number. -/
def lines? : Nat → List Char → Option (List Line)
  | 0, _ => none
  | fuel + 1, cs =>
    match skipBlanks cs with
    | [] => some []
    | '[' :: rest => do
      let (line, rest) ← header? rest
      return line :: (← lines? fuel rest)
    | rest =>
      match lineEnd? rest with
      | some rest => lines? fuel rest
      | none => do
        let (line, rest) ← entry? rest
        return line :: (← lines? fuel rest)

end CommandChain.Toml
