import CommandChain.Command
/-!
# Writing objects out

The command writes the objects it receives. It writes the elements of an array one by one, unless
told not to.
-/

namespace CommandChain.Builtin.Output

def parameters : List Parameter := [
  { name := "InputObject", mandatory := true, pipeline := .byValue, position := some 0 },
  { name := "NoEnumerate", type := .bool }]

/-- Writes an object, or the elements of an array. -/
def process (call : Call) : Hook Unit :=
  if call.parameters.switch "NoEnumerate" then .write call.inputObject .done
  else Hook.writeEnumerated call.inputObject .done

def command : Command where
  name := "Write-Output"
  parameters := parameters
  Memory := Unit
  fresh := ()
  process call _ := process call

end CommandChain.Builtin.Output
