import CommandChain.Config.Basic
import CommandChain.EngineError
import CommandChain.Toml.Reader
import CommandChain.Toml.Writer
/-!
# Configurations as TOML documents

Each group of settings is a table of its own. Groups and settings that are missing have their
defaults, and names that are not known do not count.
-/

namespace CommandChain

namespace ActionPreference

/-- The preference that a document names. -/
def ofToml? (v : Toml) : Option ActionPreference :=
  v.choice?.bind ofName?

def toToml (p : ActionPreference) : Toml :=
  .string p.name

end ActionPreference

/-- The choice that a document names. -/
def BindingErrorAction.ofToml? (v : Toml) : Option BindingErrorAction :=
  v.choice?.bind ofName?

namespace Preferences

def ofToml? (v : Toml) : Option Preferences := do
  let base : Preferences := {}
  match ← v.fields?
      ["error_action", "warning", "verbose", "debug", "information", "progress"] with
  | [errorAction, warning, verbose, debug, information, progress] =>
    return {
      errorAction := ← Toml.part base.errorAction ActionPreference.ofToml? errorAction
      warning := ← Toml.part base.warning ActionPreference.ofToml? warning
      verbose := ← Toml.part base.verbose ActionPreference.ofToml? verbose
      debug := ← Toml.part base.debug ActionPreference.ofToml? debug
      information := ← Toml.part base.information ActionPreference.ofToml? information
      progress := ← Toml.part base.progress ActionPreference.ofToml? progress }
  | _ => none

def toToml (prefs : Preferences) : Toml :=
  .table [("error_action", prefs.errorAction.toToml), ("warning", prefs.warning.toToml),
    ("verbose", prefs.verbose.toToml), ("debug", prefs.debug.toToml),
    ("information", prefs.information.toToml), ("progress", prefs.progress.toToml)]

end Preferences

namespace Script.Limits

def ofToml? (v : Toml) : Option Limits := do
  let base : Limits := {}
  match ← v.fields?
      ["max_operations", "max_call_levels", "max_expr_depth", "max_string_size"] with
  | [operations, callLevels, expressionDepth, textSize] =>
    return {
      operations := ← Toml.part base.operations Toml.nat? operations
      callLevels := ← Toml.part base.callLevels Toml.nat? callLevels
      expressionDepth := ← Toml.part base.expressionDepth Toml.nat? expressionDepth
      textSize := ← Toml.part base.textSize Toml.nat? textSize }
  | _ => none

def toToml (limits : Limits) : Toml :=
  .table [("max_operations", .int limits.operations), ("max_call_levels", .int limits.callLevels),
    ("max_expr_depth", .int limits.expressionDepth), ("max_string_size", .int limits.textSize)]

/-- Whether the limits are in the range of the integers of a document, which have 64 bits. -/
def isWritable (limits : Limits) : Bool :=
  [limits.operations, limits.callLevels, limits.expressionDepth, limits.textSize].all fun n =>
    (Decimal.int64? n).isSome

end Script.Limits

namespace LoggingConfig

def ofToml? (v : Toml) : Option LoggingConfig := do
  let base : LoggingConfig := {}
  match ← v.fields? ["filter", "directory"] with
  | [filter, directory] =>
    return {
      filter := ← Toml.part base.filter Toml.string? filter
      directory := ← Toml.part base.directory (fun v => v.string?.map some) directory }
  | _ => none

def toToml (logging : LoggingConfig) : Toml :=
  .table (("filter", .string logging.filter) ::
    (logging.directory.map fun directory => ("directory", Toml.string directory)).toList)

end LoggingConfig

namespace EngineConfig

/-- What an object does that cannot be bound, in the document of its group. -/
def bindingOfToml? (v : Toml) : Option BindingErrorAction := do
  match ← v.fields? ["pipeline_errors"] with
  | [action] => Toml.part .terminating BindingErrorAction.ofToml? action
  | _ => none

def ofToml? (v : Toml) : Option EngineConfig := do
  match ← v.fields? ["preferences", "binding", "scripting", "logging"] with
  | [preferences, binding, scripts, logging] =>
    return {
      preferences := ← Toml.part {} Preferences.ofToml? preferences
      bindingErrors := ← Toml.part .terminating bindingOfToml? binding
      scripts := ← Toml.part {} Script.Limits.ofToml? scripts
      logging := ← Toml.part {} LoggingConfig.ofToml? logging }
  | _ => none

def toToml (config : EngineConfig) : Toml :=
  .table [("preferences", config.preferences.toToml),
    ("binding", .table [("pipeline_errors", .string config.bindingErrors.name)]),
    ("scripting", config.scripts.toToml), ("logging", config.logging.toToml)]

/-- The configuration that a text holds. -/
def parse (s : String) : Except EngineError EngineConfig :=
  match (Toml.read? s).bind ofToml? with
  | some config => .ok config
  | none => .error (.config "the text is no configuration")

def text (config : EngineConfig) : String :=
  config.toToml.text

/-- The text of a configuration as it is saved, unless a limit is out of range. -/
def saved (config : EngineConfig) : Except EngineError String :=
  if config.scripts.isWritable then .ok config.text
  else .error (.serialization "a limit is out of range")

end EngineConfig

end CommandChain
