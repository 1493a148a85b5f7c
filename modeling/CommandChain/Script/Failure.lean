/-!
# Failures of scripts

Why a script cannot be compiled, and why an evaluation ends early.
-/

namespace CommandChain.Script

/-- Why a script fails. -/
inductive Failure where
  /-- A character or a literal that belongs to no token. -/
  | badToken
  /-- A token that does not continue any sentence. -/
  | unexpectedToken
  | tooDeep
  | textTooLong
  | arrayTooLong
  | mapTooLarge
  | tooManyOperations
  | tooManyCalls
  | unknownVariable (name : String)
  | unknownFunction (name : String)
  | badOperands
  | notTruthValue
  | badIndex
  | noProperty (name : String)
  | notIterable
  /-- The script threw something. -/
  | thrown
deriving DecidableEq

def Failure.message : Failure → String
  | badToken => "The script contains something that cannot be read"
  | unexpectedToken => "The script contains something that does not belong there"
  | tooDeep => "An expression is nested too deeply"
  | textTooLong => "A text is too long"
  | arrayTooLong => "An array is too long"
  | mapTooLarge => "A map is too large"
  | tooManyOperations => "Too many operations"
  | tooManyCalls => "Too many nested calls"
  | unknownVariable name => "Variable not found: " ++ name
  | unknownFunction name => "Function not found: " ++ name
  | badOperands => "An operation is not defined for its operands"
  | notTruthValue => "A condition is neither true nor false"
  | badIndex => "An index does not lead to an element"
  | noProperty name => "Only maps have properties, such as: " ++ name
  | notIterable => "Only arrays and ranges can be iterated over"
  | thrown => "The script threw an error"

end CommandChain.Script
