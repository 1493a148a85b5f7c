import CommandChain.Builtin
import CommandChain.EngineError
/-!
# The command registry

Commands are found by their name, up to ASCII case. The built-in commands are always there and
cannot be replaced; among the commands of the host the last one of a name counts.
-/

namespace CommandChain

/-- The commands that can be found by name. -/
structure CommandRegistry : Type 1 where
  /-- The commands of the host with the names they were registered under, in the order of those
  names in lower case. -/
  plugins : List (String × String × Command)

namespace CommandRegistry

/-- The registry of the built-in commands. -/
def new : CommandRegistry := ⟨[]⟩

/-- Registers a command of the host. -/
def register (registry : CommandRegistry) (name : String) (command : Command) :
    Except EngineError CommandRegistry :=
  match Builtin.ofName? name with
  | some b =>
    .error (.definition ("'" ++ name ++ "' is reserved by the built-in command " ++ b.name))
  | none => .ok ⟨Value.insertProperty (Text.lowerAscii name) (name, command) registry.plugins⟩

/-- The command of the host of a name. -/
def plugin? (registry : CommandRegistry) (name : String) : Option Command :=
  (registry.plugins.lookup (Text.lowerAscii name)).map Prod.snd

/-- Whether there is a command of a name. -/
def contains (registry : CommandRegistry) (name : String) : Bool :=
  (Builtin.ofName? name).isSome || (registry.plugin? name).isSome

/-- The command of a name. -/
def create (registry : CommandRegistry) (name : String) : Except EngineError Command :=
  match Builtin.ofName? name with
  | some b => .ok b.command
  | none =>
    match registry.plugin? name with
    | some command => .ok command
    | none => .error (.unknownCommand name)

/-- The names of all commands, the built-in ones first. -/
def names (registry : CommandRegistry) : List String :=
  Builtin.all.map Builtin.name ++ registry.plugins.map fun (_, name, _) => name

end CommandRegistry

end CommandChain
