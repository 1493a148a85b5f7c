import CommandChain.Config.Document
/-!
# Where the configuration is found

A path given by the environment comes first, then a file below the directory for configurations. A
file that is not there stands for the defaults; one that was asked for has to be there.
-/

namespace CommandChain

/-- A path below a directory. -/
def joinPath (directory name : String) : String :=
  if directory.toList.getLast? == some '/' then directory ++ name else directory ++ "/" ++ name

/-- The variables that settle where the configuration is found. -/
structure Environment where
  /-- The path of the configuration. -/
  config : Option String := none
  /-- The directory for the configurations of all programs. -/
  configHome : Option String := none
  home : Option String := none

namespace Environment

/-- The directory for configurations: the one that is set, if its path is absolute, or else one
below the home directory. -/
def configDirectory? (env : Environment) : Option String :=
  match env.configHome.filter (·.toList.head? == some '/') with
  | some directory => some directory
  | none => (env.home.filter (!·.isEmpty)).map (joinPath · ".config")

/-- The usual path of the configuration. -/
def defaultConfigPath? (env : Environment) : Option String :=
  env.configDirectory?.map fun directory => joinPath (joinPath directory "cmdpipe") "config.toml"

def configPath? (env : Environment) : Option String :=
  (env.config.filter (!·.isEmpty)).or env.defaultConfigPath?

end Environment

namespace EngineConfig

/-- The configuration in a file whose text is given, if it could be read. -/
def load (path : String) (content : Option String) : Except EngineError EngineConfig :=
  match content with
  | none => .error (.config ("Failed to read config file " ++ path))
  | some s =>
    match parse s with
    | .ok config => .ok config
    | .error e => .error (.withContext ("Failed to parse config file " ++ path) e)

/-- The configuration that the environment settles, where the files are looked up by their
paths. -/
def loadDefault (env : Environment) (files : String → Option String) :
    Except EngineError EngineConfig :=
  match env.configPath? with
  | none => .error (.config "Could not determine config directory")
  | some path =>
    match files path with
    | none => .ok {}
    | some s => load path (some s)

/-- The configuration that the environment settles, or the defaults if there is none. -/
def loadOrDefault (env : Environment) (files : String → Option String) : EngineConfig :=
  match loadDefault env files with
  | .ok config => config
  | .error _ => {}

end EngineConfig

end CommandChain
