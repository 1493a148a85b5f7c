import CommandChain.CommandLine
/-!
# The program

Reads the files that the arguments name, runs the command line and writes what it gives.
-/

namespace CommandChain

/-- The text of a file, if it can be read. -/
def readFile? (path : String) : IO (Option String) := do
  try
    return some (← IO.FS.readFile path)
  catch _ => return none

/-- The texts of the files of some paths. -/
def readFiles (paths : List String) : IO (List (String × String)) := do
  let contents ← paths.mapM fun path => do
    return (← readFile? path).map fun text => (path, text)
  return contents.filterMap id

end CommandChain

open CommandChain

/-- Runs the program with its arguments and gives its exit code. -/
def main (args : List String) : IO UInt32 := do
  let env : Environment := {
    config := ← IO.getEnv "CMDPIPE_CONFIG"
    configHome := ← IO.getEnv "XDG_CONFIG_HOME"
    home := ← IO.getEnv "HOME" }
  let paths := match CommandLine.parse args with
    | .ok (.run a) => a.definition :: (a.config.or env.configPath?).toList
    | _ => []
  let contents ← readFiles paths
  let ending := CommandLine.run args env fun path => contents.lookup path
  for line in ending.output do
    IO.println line
  IO.eprint ending.errorOutput
  return ending.exitCode.toUInt32
