import CommandChain.Chain.Nested
/-!
# Recipes

A recipe describes a command by lists of steps, one list for each phase. The command it makes notes
every call it receives on the timeline and counts the objects it processes.
-/

namespace CommandChain

/-- What a step of a recipe does. -/
inductive Action where
  /-- Writes an object. -/
  | write (v : Value)
  /-- Writes the object being processed. -/
  | pass
  /-- Writes the value of a parameter. -/
  | parameter (name : String)
  /-- Writes a property of the object being processed. -/
  | property (name : String)
  /-- Writes the elements of a value, or of the object being processed. -/
  | enumerate (v : Option Value)
  /-- Writes a message to the host. -/
  | report (m : Message)
  | fail (f : CommandFault)
  /-- Gives up as if the chain were halting. -/
  | giveUp
  | cutInput
  /-- Gives up if the chain is halting. -/
  | check
  | signal (token : StopToken)
  /-- Puts a note on the timeline. -/
  | note (text : Call → String)
  /-- Notes whether the chain is halting. -/
  | noteStopping
  | panic (text : String)
  /-- Runs a chain of its own and writes the objects it puts out. -/
  | runChain (chain : StopFlags → ChainReport)

/-- A note of a command. -/
def Call.noted (call : Call) (text : String) : String :=
  call.name ++ ":" ++ text

/-- What a call tells about itself. -/
def Call.summary (call : Call) : String :=
  ":".intercalate ["context", call.id.display, call.name, Decimal.natText call.position,
    call.phase.name, call.preferences.errorAction.name, call.preferences.warning.name,
    call.preferences.verbose.name]

namespace Action

/-- Carries an action out and goes on with its result. -/
def hook {σ : Type} (call : Call) (next : CallResult → Hook σ) : Action → Hook σ
  | write v => .write v next
  | pass => .write (call.input.getD .null) next
  | parameter name => .write ((call.parameters.get? name).getD .null) next
  | property name =>
    .write ((call.input.bind (call.adapter.property? · name)).getD .null) next
  | enumerate v => Hook.writeEnumerated (v.getD (call.input.getD .null)) next
  | report m => .report m next
  | fail f => next (.fault f)
  | giveUp => next .stopped
  | cutInput => .cutInput (next .ok)
  | check => .askStopping fun stopping => next (if stopping then .stopped else .ok)
  | signal token => .signal token (next .ok)
  | note text => .note (call.noted (text call)) (next .ok)
  | noteStopping => .askStopping fun stopping =>
    .note (call.noted (if stopping then "stopping:true" else "stopping:false")) (next .ok)
  | panic text => .panic (.text text)
  | runChain chain => .runChain chain fun outcome =>
    .note (call.noted ("nested:" ++ outcome.status.name)) (Hook.writeAll outcome.outputValues next)

end Action

/-- An action with the conditions under which it is carried out. -/
structure RecipeStep where
  action : Action
  /-- The object being processed has to be equal to this one. -/
  onObject : Option Value := none
  /-- This many objects have to have arrived. -/
  onCount : Option Nat := none
  /-- A refusal is only noted. -/
  ignore : Bool := false

/-- The result of an action in a note. -/
def CallResult.summary : CallResult → String
  | ok => "Ok"
  | stopped => "Stopped"
  | fault f => (if f.terminating then "Terminating:" else "NonTerminating:") ++ f.error.errorId

namespace RecipeStep

/-- Whether a step is carried out in a call, given the number of objects that have arrived. -/
def applies (step : RecipeStep) (call : Call) (count : Nat) : Bool :=
  step.onObject.all (fun v => call.input.any (· == v)) && step.onCount.all (· == count)

/-- Carries steps out in order, up to the first that is refused. -/
def hook (call : Call) (count : Nat) : List RecipeStep → Hook Nat
  | [] => .done .ok
  | step :: rest =>
    if step.applies call count then
      step.action.hook call fun result =>
        if step.ignore then
          .note (call.noted ("ignored:" ++ result.summary)) (hook call count rest)
        else match result with
          | .ok => hook call count rest
          | refused => .done refused
    else hook call count rest

end RecipeStep

/-- What goes wrong when a command is released. -/
inductive ReleaseFailure where
  | panic (text : String)
  | fault (f : CommandFault)

/-- A command described by its steps. -/
structure Recipe where
  name : String
  parameters : List Parameter
  begin : List RecipeStep
  process : List RecipeStep
  finish : List RecipeStep
  release : Option ReleaseFailure
  /-- Leaves the phases without a note. -/
  quiet : Bool

namespace Recipe

/-- Notes a phase, unless the recipe is quiet. -/
def announce (recipe : Recipe) (event : String) (next : Hook Nat) : Hook Nat :=
  if recipe.quiet then next else .note (recipe.name ++ ":" ++ event) next

/-- How the release of the command ends. -/
def releaseResult (recipe : Recipe) : Except Panic (Option CommandFault) :=
  match recipe.release with
  | none => .ok none
  | some (.panic text) => .error (.text text)
  | some (.fault f) => .ok (some f)

/-- The command. It remembers the number of objects that have arrived. -/
def command (recipe : Recipe) : Command where
  name := recipe.name
  parameters := recipe.parameters
  Memory := Nat
  fresh := 0
  begin call count := recipe.announce "begin" (RecipeStep.hook call count recipe.begin)
  process call count :=
    let event := match call.input with
      | some v => "process:" ++ v.display
      | none => "process"
    .store (count + 1) (recipe.announce event (RecipeStep.hook call (count + 1) recipe.process))
  finish call count := recipe.announce "end" (RecipeStep.hook call count recipe.finish)
  stop _ count := { memory := count, notes := [recipe.name ++ ":stop"], result := .ok () }
  dispose _ count :=
    { memory := count, notes := [recipe.name ++ ":dispose"], result := recipe.releaseResult }

end Recipe

end CommandChain
