import CommandChain.Builtin.Filter
import CommandChain.Builtin.Mapping
import CommandChain.Builtin.Measurement
import CommandChain.Builtin.Output
import CommandChain.Builtin.Selection
import CommandChain.Builtin.Sorting
import CommandChain.Script.Standard
/-!
# The built-in commands

Every built-in command has a name and some short names.
-/

namespace CommandChain

inductive Builtin where
  | output
  | filter
  | mapping
  | selection
  | sorting
  | measurement
deriving DecidableEq

namespace Builtin

def all : List Builtin :=
  [output, filter, mapping, selection, sorting, measurement]

/-- The command itself. Scripts are in the standard language. -/
def command : Builtin → Command
  | output => Output.command
  | filter => Filter.command Script.standard
  | mapping => Mapping.command Script.standard
  | selection => Selection.command
  | sorting => Sorting.command
  | measurement => Measurement.command

def name : Builtin → String
  | output => "Write-Output"
  | filter => "Where-Object"
  | mapping => "ForEach-Object"
  | selection => "Select-Object"
  | sorting => "Sort-Object"
  | measurement => "Measure-Object"

/-- The short names of a command. -/
def aliases : Builtin → List String
  | output => ["echo", "write"]
  | filter => ["where", "?"]
  | mapping => ["foreach", "%"]
  | selection => ["select"]
  | sorting => ["sort"]
  | measurement => ["measure"]

/-- Whether a text is the name or a short name of a command, up to ASCII case. -/
def isNamed (b : Builtin) (s : String) : Bool :=
  Text.sameName b.name s || b.aliases.any (Text.sameName · s)

def ofName? (s : String) : Option Builtin :=
  all.find? (·.isNamed s)

end Builtin

end CommandChain
