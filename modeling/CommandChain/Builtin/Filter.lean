import CommandChain.Builtin.Comparison
import CommandChain.Builtin.Scripting
/-!
# Filtering objects

The command passes on the objects for which a condition holds: a script whose value counts as true,
or a comparison of a property with a value. The scripts are in a given language.
-/

namespace CommandChain.Builtin.Filter

def parameters : List Parameter := [
  { name := "FilterScript", type := .string, position := some 0 },
  { name := "Property", type := .string },
  { name := "Value" },
  { name := "Operator", type := .string },
  { name := "InputObject", pipeline := .byValue }]

/-- A condition on objects. -/
inductive Condition (language : Script.Language) where
  | script (block : Script.Block language)
  | comparison (property : String) (op : ComparisonOperator) (value : Value)

structure Memory (language : Script.Language) where
  condition : Option (Condition language) := none
  scope : language.Scope := language.empty

variable {language : Script.Language}

/-- The result of a call with unusable arguments. -/
def invalidArgument (message : String) : CallResult :=
  .terminating
    { message := message, category := .invalidArgument, errorId := "InvalidWhereCondition" }

/-- The comparison that the arguments describe, or why they describe none. -/
def comparison? (call : Call) : Except CallResult (Condition language) :=
  match call.parameters.text? "Property" with
  | none => .error (invalidArgument "Where-Object requires either FilterScript or Property")
  | some property =>
    let value := (call.parameters.get? "Value").getD (.bool true)
    match call.parameters.text? "Operator" with
    | none => .ok (.comparison property .eq value)
    | some s =>
      match ComparisonOperator.read? s with
      | some op => .ok (.comparison property op value)
      | none => .error (invalidArgument (ComparisonOperator.readErrorMessage s))

/-- Settles the condition. A script goes before a comparison. -/
def begin (call : Call) (m : Memory language) : Hook (Memory language) :=
  match compileParameter language call "FilterScript" with
  | .error f => .done (.fault f)
  | .ok (some block) => .store { m with condition := some (.script block) } (.done .ok)
  | .ok none =>
    match comparison? call with
    | .error result => .done result
    | .ok condition => .store { m with condition := some condition } (.done .ok)

/-- Writes an object where it is kept. -/
def passOn (keep : Bool) (v : Value) : Hook (Memory language) :=
  if keep then .write v .done else .done .ok

/-- Passes an object on where the condition holds for it. -/
def process (call : Call) (m : Memory language) : Hook (Memory language) :=
  let input := call.inputObject
  match m.condition with
  | none => .done .ok
  | some (.comparison property op value) =>
    passOn (op.evaluate ((call.adapter.property? input property).getD .null) value) input
  | some (.script block) =>
    let (result, scope) := evaluateBlock call block m.scope (some input)
    .store { m with scope := scope } (match result with
      | .ok v => passOn v.isTruthy input
      | .error f => .done (scriptFailed block f))

/-- The command, with scripts in a language. -/
def command (language : Script.Language) : Command where
  name := "Where-Object"
  parameters := parameters
  Memory := Memory language
  fresh := {}
  begin := begin
  process := process

end CommandChain.Builtin.Filter
