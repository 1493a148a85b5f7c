import CommandChain.Lifecycle
import CommandChain.Parameter.Binding
/-!
# Errors outside of a running chain

What goes wrong while a chain is described, configured or built is an error of the engine. Faults
of a running chain are records on its timeline instead.
-/

namespace CommandChain

inductive EngineError where
  | config (text : String)
  | definition (text : String)
  | unknownCommand (name : String)
  | binding (e : BindingError)
  | lifecycle (e : LifecycleError)
  | job (text : String)
  | script (text : String)
  | file (text : String)
  | serialization (text : String)
  | withContext (context : String) (source : EngineError)

namespace EngineError

/-- The name of the kind of an error. -/
def kind : EngineError → String
  | config _ => "Config"
  | definition _ => "Definition"
  | unknownCommand _ => "UnknownCommand"
  | binding _ => "Binding"
  | lifecycle _ => "Lifecycle"
  | job _ => "Job"
  | script _ => "Script"
  | file _ => "Io"
  | serialization _ => "Serialization"
  | withContext .. => "WithContext"

/-- The kinds of an error and of those it wraps, from the outside inward. -/
def kinds : EngineError → List String
  | withContext context source => (withContext context source).kind :: source.kinds
  | e => [e.kind]

def message : EngineError → String
  | config text => "Configuration error: " ++ text
  | definition text => "Definition error: " ++ text
  | unknownCommand name => "The term '" ++ name ++ "' is not recognized as a command"
  | binding e => "Binding error: " ++ e.message
  | lifecycle e => "Lifecycle error: " ++ e.message
  | job text => "Job error: " ++ text
  | script text => "Script error: " ++ text
  | file text => "IO error: " ++ text
  | serialization text => "Serialization error: " ++ text
  | withContext context source => context ++ ": " ++ source.message

end EngineError

end CommandChain
