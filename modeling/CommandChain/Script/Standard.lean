import CommandChain.Script.Evaluation
import CommandChain.Script.Grammar
import CommandChain.Script.Language
/-!
# The standard language

The language that the program runs scripts in, by an interpreter that covers a part of it. A program
is a syntax tree, and a scope is a list of variables. What is proved of the commands holds for every
language, so that it does not depend on how far the interpreter goes.
-/

namespace CommandChain.Script

namespace Standard

/-- The fuel of an evaluation. Every nested call of the evaluator comes with an operation, so a
multiple of their limit suffices; without a limit the fuel is beyond reach. -/
def fuel (limits : Limits) : Nat :=
  if limits.operations == 0 then Nat.pow 2 60 else 8 * limits.operations + 64

/-- How the end of an evaluation is seen from outside. -/
def conclude : Except Exit Datum → Except String Datum
  | .ok d | .error (.returned d) => .ok d
  | .error (.failed f) => .error f.message
  | .error .left | .error .proceeded => .ok .unit

def evaluate (limits : Limits) (program : Program) (scope : Scope) : Except String Datum × Scope :=
  let ctx : Context := ⟨program.functions, limits, 0⟩
  let (result, m) := body ctx (fuel limits) program.statements program.value ⟨scope, 0⟩
  (conclude result, m.scope)

def compile (limits : Limits) (source : String) : Except String Program :=
  match Program.read limits source with
  | .ok program => .ok program
  | .error f => .error f.message

end Standard

/-- The language that the program runs scripts in. -/
def standard : Language where
  Program := Program
  Scope := Scope
  empty := []
  assign := Scope.set
  compile := Standard.compile
  evaluate := Standard.evaluate

end CommandChain.Script
