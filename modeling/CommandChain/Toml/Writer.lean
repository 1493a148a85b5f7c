import CommandChain.Toml.Quotation
import CommandChain.Toml.Basic
/-!
# Writing TOML

A document is written in sections. In each section the plain entries come first; an entry that is a
table, or a nonempty array of tables only, becomes sections of its own behind it. Sections are
separated by blank lines.
-/

namespace CommandChain.Toml

/-- Numbers are written positionally, whole ones with `.0`. -/
def numberLayout : Decimal.Layout :=
  { Decimal.plain with wholeMark := ".0" }

/-- The characters of a double. The sign of a NaN is dropped. -/
def floatChars (x : Float) : List Char :=
  if Decimal.isNaN x then ['n', 'a', 'n']
  else if Decimal.isFinite x then (numberLayout.finite x).toList
  else (if Decimal.isNegative x then ['-'] else []) ++ ['i', 'n', 'f']

mutual
/-- The characters of a value behind its name. -/
def chars : Toml → List Char
  | .string s => quote s
  | .int i => (Decimal.intText i).toList
  | .float x => floatChars x
  | .bool true => ['t', 'r', 'u', 'e']
  | .bool false => ['f', 'a', 'l', 's', 'e']
  | .array [] => ['[', ']']
  | .array [v] => '[' :: (chars v ++ [']'])
  | .array items => '[' :: (charsItems items ++ ['\n', ']'])
  | .table [] => ['\x7b', '\x7d']
  | .table entries => '\x7b' :: (charsEntries entries ++ [' ', '\x7d'])
/-- The elements of an array, each on a line of its own with a comma behind it. -/
def charsItems : List Toml → List Char
  | [] => []
  | v :: rest => '\n' :: ' ' :: ' ' :: ' ' :: ' ' :: (chars v ++ ',' :: charsItems rest)
/-- The entries of a table within a line, with commas between them. -/
def charsEntries : List (String × Toml) → List Char
  | [] => []
  | [(name, v)] => ' ' :: (quoteName name ++ ' ' :: '=' :: ' ' :: chars v)
  | (name, v) :: rest =>
    ' ' :: (quoteName name ++ ' ' :: '=' :: ' ' :: (chars v ++ ',' :: charsEntries rest))
end

/-- Whether a value becomes sections of its own. -/
def isSection : Toml → Bool
  | .table _ => true
  | .array items => !items.isEmpty && items.all isTable
  | _ => false

/-- How the header of a section is written. -/
inductive Header where
  /-- The document itself has none. -/
  | none
  | table
  | row
deriving DecidableEq

/-- The line of a header. The header of a table that holds nothing but sections is left out. -/
def headerChars (kind : Header) (path : List String) (entries : List (String × Toml)) :
    List Char :=
  let names := (path.map quoteName).intersperse ['.'] |>.flatten
  match kind with
  | .none => []
  | .row => '[' :: '[' :: (names ++ [']', ']', '\n'])
  | .table =>
    if !entries.isEmpty && entries.all fun (_, v) => v.isSection then []
    else '[' :: (names ++ [']', '\n'])

/-- The lines of the plain entries. -/
def plainLines (entries : List (String × Toml)) : List Char :=
  (entries.filter fun (_, v) => !v.isSection).flatMap fun (name, v) =>
    quoteName name ++ ' ' :: '=' :: ' ' :: (chars v ++ ['\n'])

mutual
/-- The sections of a table, those that are left out being empty. -/
def sections (kind : Header) (path : List String) : Toml → List (List Char)
  | .table entries =>
    (headerChars kind path entries ++ plainLines entries) :: sectionsOfEntries path entries
  | _ => []
/-- The sections of the entries of a table. -/
def sectionsOfEntries (path : List String) : List (String × Toml) → List (List Char)
  | [] => []
  | (name, v) :: rest =>
    (match v with
    | .table entries =>
      (headerChars .table (path ++ [name]) entries ++ plainLines entries) ::
        sectionsOfEntries (path ++ [name]) entries
    | .array items =>
      if (Toml.array items).isSection then sectionsOfRows (path ++ [name]) items else []
    | _ => []) ++ sectionsOfEntries path rest
/-- The sections of the rows of an array of tables. -/
def sectionsOfRows (path : List String) : List Toml → List (List Char)
  | [] => []
  | v :: rest => sections .row path v ++ sectionsOfRows path rest
end

/-- The text of a document, which is a table. -/
def text (document : Toml) : String :=
  let written := (sections .none [] document).filter (!·.isEmpty)
  String.ofList ((written.intersperse ['\n']).flatten)

end CommandChain.Toml
