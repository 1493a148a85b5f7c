/-!
# Limits on scripts

A script stops with an error when it reaches a limit. A limit of zero operations, expression depth
or text size stands for no limit.
-/

namespace CommandChain.Script

/-- What one evaluation may use. -/
structure Limits where
  operations : Nat := 100000
  callLevels : Nat := 32
  expressionDepth : Nat := 64
  textSize : Nat := 10000
deriving DecidableEq

/-- The greatest number of elements of an array in a script. -/
def arrayLimit : Nat := 10000

/-- The greatest number of entries of a map in a script. -/
def mapLimit : Nat := 1000

end CommandChain.Script
