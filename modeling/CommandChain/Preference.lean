import CommandChain.Parameter.Binding
import CommandChain.Record.Basic
/-!
# Stream preferences

A preference says what becomes of a record on a side channel: it is delivered, it is made but not
delivered, or it is delivered and the command that wrote it faults. Errors are always delivered.
-/

namespace CommandChain

/-- What becomes of a record on a channel. -/
inductive ActionPreference where
  | continue
  | silentlyContinue
  | stop
deriving DecidableEq

namespace ActionPreference

def name : ActionPreference → String
  | .continue => "Continue"
  | silentlyContinue => "SilentlyContinue"
  | stop => "Stop"

def all : List ActionPreference :=
  [.continue, silentlyContinue, stop]

/-- The preference of exactly that name. -/
def ofName? (s : String) : Option ActionPreference :=
  all.find? (·.name == s)

/-- The preference a text names, up to ASCII case and surrounding white space. -/
def read? (s : String) : Option ActionPreference :=
  all.find? fun p => Text.sameName p.name (Text.trim s)

/-- The wording for a text that names no preference. -/
def readErrorMessage (s : String) : String :=
  "'" ++ s ++ "' is not a valid action preference"

end ActionPreference

/-- The preferences for all channels. -/
structure Preferences where
  errorAction : ActionPreference := .continue
  warning : ActionPreference := .continue
  verbose : ActionPreference := .silentlyContinue
  debug : ActionPreference := .silentlyContinue
  information : ActionPreference := .continue
  progress : ActionPreference := .continue
deriving DecidableEq

namespace Preferences

/-- The preference for a channel. Objects always flow. -/
def forKind (prefs : Preferences) : RecordKind → ActionPreference
  | .object => .continue
  | .error => prefs.errorAction
  | .warning => prefs.warning
  | .verbose => prefs.verbose
  | .debug => prefs.debug
  | .information => prefs.information
  | .progress => prefs.progress

/-- Whether records on a channel reach the host. -/
def delivers (prefs : Preferences) (kind : RecordKind) : Bool :=
  kind == .error || prefs.forKind kind != .silentlyContinue

/-- The preference bound to a common parameter, if it is bound. -/
def bound? (bound : BoundParameters) (parameter : String) :
    Except BindingError (Option ActionPreference) :=
  match bound.get? parameter with
  | none => .ok none
  | some v =>
    match ActionPreference.read? v.display with
    | some p => .ok (some p)
    | none => .error (.typeConversionFailed parameter v.display v.typeName .string)

/-- The preferences of one command: those of the chain, overlaid by the common parameters bound on
the command. -/
def overlay (prefs : Preferences) (bound : BoundParameters) : Except BindingError Preferences := do
  let errorAction ← bound? bound "ErrorAction"
  let warning ← bound? bound "WarningAction"
  let information ← bound? bound "InformationAction"
  return { prefs with
    errorAction := errorAction.getD prefs.errorAction
    warning := warning.getD prefs.warning
    information := information.getD prefs.information
    verbose := if bound.switch "Verbose" then .continue else prefs.verbose
    debug := if bound.switch "Debug" then .continue else prefs.debug }

end Preferences

/-- What an object that cannot be bound does to the chain. -/
inductive BindingErrorAction where
  /-- The command faults and the chain halts. -/
  | terminating
  /-- The error is reported and the next object is processed. -/
  | nonTerminating
deriving DecidableEq

def BindingErrorAction.name : BindingErrorAction → String
  | .terminating => "Terminating"
  | .nonTerminating => "NonTerminating"

/-- The choice of exactly that name. -/
def BindingErrorAction.ofName? (s : String) : Option BindingErrorAction :=
  [terminating, nonTerminating].find? (·.name == s)

end CommandChain
