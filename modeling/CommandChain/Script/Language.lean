import CommandChain.Script.Datum
/-!
# The language of scripts

Commands do not read scripts themselves: they hand them to a language, which compiles a script to a
program and evaluates it in a scope. What programs and scopes are, and what a script means, is up to
the language. What the engine adds is here: an object enters a script as the variable `item`, and
what comes out is turned back into a value.
-/

namespace CommandChain.Script

/-- A language for scripts. Its failures are told by their wording. -/
structure Language where
  /-- Compiled scripts. -/
  Program : Type
  /-- The variables that evaluations share. -/
  Scope : Type
  /-- No variables. -/
  empty : Scope
  /-- Gives a variable of a name a value. -/
  assign : Scope → String → Datum → Scope
  /-- Compiles the text of a script. -/
  compile : Limits → String → Except String Program
  /-- Evaluates a program: what it gives, or why it gives nothing, and the scope that it leaves. A
  result that is not among the data is given by its wording. -/
  evaluate : Limits → Program → Scope → Except String Datum × Scope

/-- A compiled script with its text. -/
structure Block (language : Language) where
  source : String
  program : language.Program

namespace Block

def compile (language : Language) (limits : Limits) (source : String) :
    Except String (Block language) :=
  match language.compile limits source with
  | .ok program => .ok ⟨source, program⟩
  | .error message => .error message

/-- Evaluates a block with an object, or without one, in a scope that lasts from one evaluation to
the next: the value or why there is none, and the scope as the evaluation leaves it. -/
def run {language : Language} (block : Block language) (limits : Limits) (adapter : Adapter)
    (scope : language.Scope) (item : Option Value) : Except String Value × language.Scope :=
  let datum := match item with
    | some v => Datum.ofValue adapter v
    | none => .unit
  let (result, scope) := language.evaluate limits block.program (language.assign scope "item" datum)
  (result.map Datum.toValue, scope)

end Block

end CommandChain.Script
