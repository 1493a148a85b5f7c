import CommandChain.Registry
/-!
# Definitions of chains

A definition names the commands of a chain with their arguments, and may supply the objects of the
host. The arguments of a command come in a fixed order: named ones, switches, positional ones.
-/

namespace CommandChain

/-- A command of a definition. -/
structure CommandDefinition where
  name : String
  positional : List Value := []
  /-- The named arguments, in the order of their names. -/
  named : List (String × Value) := []
  switches : List String := []
  bindingErrors : Option BindingErrorAction := none
deriving BEq

/-- A chain of commands, and the objects of the host where there are any. -/
structure PipelineDefinition where
  input : Option (List Value) := none
  commands : List CommandDefinition := []
deriving BEq

/-- The arguments in the order in which they are bound. -/
def CommandDefinition.arguments (c : CommandDefinition) : List Argument :=
  (c.named.map fun (name, v) => .named name (some v))
    ++ (c.switches.map fun name => .named name none)
    ++ c.positional.map .positional

/-- The command that a definition names, with its arguments. -/
def CommandDefinition.spec (c : CommandDefinition) (registry : CommandRegistry) :
    Except EngineError CommandSpec :=
  match registry.create c.name with
  | .error e => .error e
  | .ok command => .ok ⟨command, c.arguments, c.bindingErrors⟩

/-- The commands that some definitions name, up to the first that is not found. -/
def CommandDefinition.specs (registry : CommandRegistry) :
    List CommandDefinition → Except EngineError (List CommandSpec)
  | [] => .ok []
  | c :: rest =>
    match c.spec registry with
    | .error e => .error e
    | .ok spec =>
      match specs registry rest with
      | .error e => .error e
      | .ok specs => .ok (spec :: specs)

/-- The commands of a chain, of which there is at least one. -/
def PipelineDefinition.specs (d : PipelineDefinition) (registry : CommandRegistry) :
    Except EngineError (List CommandSpec) :=
  if d.commands.isEmpty then .error (.definition "Pipeline definition contains no commands")
  else CommandDefinition.specs registry d.commands

end CommandChain
