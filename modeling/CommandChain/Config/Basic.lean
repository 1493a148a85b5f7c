import CommandChain.Chain.Pipeline
/-!
# Configuration

The defaults every chain starts from: the preferences of the channels, what objects do that cannot
be bound, the limits on scripts, and where the log goes.
-/

namespace CommandChain

/-- What is logged and where. -/
structure LoggingConfig where
  /-- Which messages are logged. -/
  filter : String := "info,cmdpipe=debug"
  /-- The directory of the log files, where there are any. -/
  directory : Option String := none
deriving DecidableEq

structure EngineConfig where
  preferences : Preferences := {}
  /-- What an object does that cannot be bound. -/
  bindingErrors : BindingErrorAction := .terminating
  scripts : Script.Limits := {}
  logging : LoggingConfig := {}
deriving DecidableEq

/-- The settings of a chain under a configuration. -/
def EngineConfig.chainSettings (config : EngineConfig) : ChainSettings :=
  { preferences := config.preferences
    bindingErrors := config.bindingErrors
    scripts := config.scripts }

end CommandChain
