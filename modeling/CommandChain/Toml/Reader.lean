import CommandChain.Toml.Line
/-!
# Reading TOML

A document is read line by line: every entry goes into the table that the last header opened.
-/

namespace CommandChain.Toml

/-- The document that some lines build, going on from a document whose last header has the given
names. -/
def build? : List Line → List String → Node → Option Node
  | [], _, node => some node
  | line :: rest, header, node =>
    match line with
    | .table path name => (node.openTable path name).bind (build? rest (path ++ [name]))
    | .row path name => (node.openRow path name).bind (build? rest (path ++ [name]))
    | .entry path name v => (node.insertBelow header path name v).bind (build? rest header)

/-- The document of some lines. -/
def ofLines? (lines : List Line) : Option Toml :=
  (build? lines [] .empty).map Node.toToml

/-- The document a text holds. A byte order mark at its start does not count. -/
def read? (s : String) : Option Toml :=
  let cs := match s.toList with
    | '\uFEFF' :: rest => rest
    | cs => cs
  (lines? (cs.length + 1) cs).bind ofLines?

end CommandChain.Toml
