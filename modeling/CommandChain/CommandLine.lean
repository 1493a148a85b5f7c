import CommandChain.Config.Location
import CommandChain.Definition.File
import CommandChain.Job
import CommandChain.Record.Document
/-!
# The command line

The program runs the chain of a definition and writes every record that reaches the host as one line
of JSON. It ends with 0 if the chain succeeded, with 2 if the arguments are at fault, and otherwise
with 1.
-/

namespace CommandChain.CommandLine

/-- What the arguments ask for. -/
structure Arguments where
  /-- The path of the configuration. -/
  config : Option String
  /-- The path of the definition. -/
  definition : String
deriving DecidableEq

/-- Why arguments are refused. -/
inductive UsageError where
  | unexpectedArgument (arg : String)
  | valueRequired
  | repeatedConfig
  | emptyValue
  | definitionRequired
deriving DecidableEq

def UsageError.message : UsageError → String
  | unexpectedArgument arg => "unexpected argument '" ++ arg ++ "' found"
  | valueRequired => "a value is required for '--config <CONFIG>' but none was supplied"
  | repeatedConfig => "the argument '--config <CONFIG>' cannot be used multiple times"
  | emptyValue => "a value is required but none was supplied"
  | definitionRequired => "the following required arguments were not provided: <DEFINITION>"

/-- What the program is asked to do. -/
inductive Request where
  | help
  | version
  | run (arguments : Arguments)
deriving DecidableEq

/-- One argument by its form. -/
inductive Word where
  | help
  | version
  /-- The name of the configuration option, with a value attached to it or without. -/
  | config (value : Option String)
  /-- The mark behind which every argument is a plain one. -/
  | plainOnly
  | unknown
  | plain
deriving DecidableEq

/-- A value attached to a short option, without the equals sign that may stand before it. -/
def attached : List Char → Option String
  | [] => none
  | '=' :: rest => some (String.ofList rest)
  | rest => some (String.ofList rest)

/-- The form of an argument. -/
def Word.ofText (arg : String) : Word :=
  match arg.toList with
  | ['-'] => .plain
  | ['-', '-'] => .plainOnly
  | '-' :: '-' :: name =>
    let value := name.dropWhile (· != '=')
    match String.ofList (name.takeWhile (· != '=')) with
    | "config" => .config (if value.isEmpty then none else some (String.ofList (value.drop 1)))
    | "help" => if value.isEmpty then .help else .unknown
    | "version" => if value.isEmpty then .version else .unknown
    | _ => .unknown
  | '-' :: 'c' :: value => .config (attached value)
  | '-' :: 'h' :: _ => .help
  | '-' :: 'V' :: _ => .version
  | '-' :: _ => .unknown
  | _ => .plain

/-- What was read of the arguments so far. -/
structure Reading where
  config : Option String := none
  definition : Option String := none

namespace Reading

/-- Takes the path of the configuration. -/
def takeConfig (r : Reading) (value : String) : Except UsageError Reading :=
  if r.config.isSome then .error .repeatedConfig
  else if value.isEmpty then .error .emptyValue
  else .ok { r with config := some value }

/-- Takes a plain argument. -/
def takePlain (r : Reading) (arg : String) : Except UsageError Reading :=
  if r.definition.isSome then .error (.unexpectedArgument arg)
  else if arg.isEmpty then .error .emptyValue
  else .ok { r with definition := some arg }

/-- Takes plain arguments. -/
def takeAll (r : Reading) : List String → Except UsageError Reading
  | [] => .ok r
  | arg :: rest => do takeAll (← r.takePlain arg) rest

/-- What the arguments ask for once all are read. -/
def request (r : Reading) : Except UsageError Request :=
  match r.definition with
  | some definition => .ok (.run ⟨r.config, definition⟩)
  | none => .error .definitionRequired

end Reading

/-- Reads arguments in order, up to one that asks for help or for the version. -/
def read (r : Reading) : List String → Except UsageError Request
  | [] => r.request
  | arg :: rest =>
    match Word.ofText arg with
    | .help => .ok .help
    | .version => .ok .version
    | .unknown => .error (.unexpectedArgument arg)
    | .plainOnly => do (← r.takeAll rest).request
    | .plain => do read (← r.takePlain arg) rest
    | .config (some value) => do read (← r.takeConfig value) rest
    | .config none =>
      match rest with
      | [] => .error .valueRequired
      | value :: rest =>
        if Word.ofText value == .plain then do read (← r.takeConfig value) rest
        else .error .valueRequired

/-- What the arguments ask for. -/
def parse (args : List String) : Except UsageError Request :=
  read {} args

/-- How the program ends. -/
inductive Ending where
  | told (text : String)
  | refused (e : UsageError)
  /-- The chain could not be set up. -/
  | failed (e : EngineError)
  /-- The chain was run. -/
  | finished (job : Job)

def helpText : String :=
  "\n".intercalate [
    "Run a pipeline definition and print every host record as a JSON line",
    "",
    "Usage: cmdpipe [OPTIONS] <DEFINITION>",
    "",
    "Arguments:",
    "  <DEFINITION>  Pipeline definition (TOML, or JSON by extension)",
    "",
    "Options:",
    "  -c, --config <CONFIG>  Engine configuration file (TOML)",
    "  -h, --help             Print help",
    "  -V, --version          Print version"]

def versionText : String :=
  "cmdpipe 0.1.0"

/-- Sets up the chain of a definition under a configuration and runs it. -/
def runDefinition (config : EngineConfig) (definition : PipelineDefinition) : Ending :=
  match definition.specs .new with
  | .error e => .failed e
  | .ok specs =>
    let (host, flags) := StopFlags.none.newToken
    .finished (Job.run config.chainSettings host flags specs definition.input)

/-- The configuration that the arguments and the environment settle. -/
def configFor (a : Arguments) (env : Environment) (files : String → Option String) :
    Except EngineError EngineConfig :=
  match a.config with
  | none => .ok (EngineConfig.loadOrDefault env files)
  | some path =>
    match EngineConfig.load path (files path) with
    | .ok config => .ok config
    | .error e => .error (.withContext ("Failed to load config " ++ path) e)

/-- Runs the program, where the files are looked up by their paths. -/
def run (args : List String) (env : Environment) (files : String → Option String) : Ending :=
  match parse args with
  | .error e => .refused e
  | .ok .help => .told helpText
  | .ok .version => .told versionText
  | .ok (.run a) =>
    match configFor a env files with
    | .error e => .failed e
    | .ok config =>
      match PipelineDefinition.load a.definition (files a.definition) with
      | .error e => .failed e
      | .ok definition => runDefinition config definition

def line? (r : Record) : Option String :=
  r.toJson?.map Json.text

namespace Ending

def exitCode : Ending → Nat
  | told _ => 0
  | refused _ => 2
  | failed _ => 1
  | finished job =>
    match job.join with
    | .ok outcome => if outcome.succeeded then 0 else 1
    | .error _ => 1

def output : Ending → List String
  | told text => text.splitOn "\n"
  | refused _ | failed _ => []
  | finished job => job.records.filterMap line?

def errorOutput : Ending → String
  | told _ => ""
  | refused e => "error: " ++ e.message ++ "\n"
  | failed e => "Error: " ++ e.message ++ "\n"
  | finished job =>
    match job.join with
    | .ok outcome =>
      match outcome.terminalFault with
      | some fault => if outcome.succeeded then "" else fault.display ++ "\n"
      | none => ""
    | .error e => "Error: " ++ e.message ++ "\n"

end Ending

end CommandChain.CommandLine
