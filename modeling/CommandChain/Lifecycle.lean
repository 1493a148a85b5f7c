/-!
# The life of a command

A command is created, begins, processes objects, ends and is disposed of. A halt takes it from a
running state to `stopped` and a fault to `error`; both lead only to disposal.
-/

namespace CommandChain

/-- The phase an engine call belongs to. -/
inductive Phase where
  | bind
  | begin
  | process
  | finish
  | stop
  | dispose
deriving DecidableEq

/-- The name of a phase in records. -/
def Phase.name : Phase → String
  | .bind => "Bind"
  | .begin => "Begin"
  | .process => "Process"
  | .finish => "End"
  | .stop => "Stop"
  | .dispose => "Dispose"

/-- Where a command is in its life. -/
inductive CommandState where
  | created
  | began
  | processing
  | ended
  /-- Halted before its end. -/
  | stopped
  /-- A fault aborted one of its phases. -/
  | error
  | disposed
deriving DecidableEq

/-- A step that no command may take. -/
structure LifecycleError where
  fromState : CommandState
  toState : CommandState
deriving DecidableEq

namespace CommandState

def name : CommandState → String
  | created => "Created"
  | began => "Began"
  | processing => "Processing"
  | ended => "Ended"
  | stopped => "Stopped"
  | error => "Error"
  | disposed => "Disposed"

def all : List CommandState :=
  [created, began, processing, ended, stopped, error, disposed]

def ofName? (s : String) : Option CommandState :=
  all.find? (·.name == s)

/-- Whether a command may go from one state to another. A command that faults again while it is
being halted stays faulted. -/
def canBecome : CommandState → CommandState → Bool
  | created, began => true
  | began, processing => true
  | processing, processing => true
  | began, ended => true
  | processing, ended => true
  | began, stopped => true
  | processing, stopped => true
  | began, error => true
  | processing, error => true
  | ended, error => true
  | error, error => true
  | created, disposed => true
  | ended, disposed => true
  | stopped, disposed => true
  | error, disposed => true
  | _, _ => false

/-- The step to another state. -/
def become (state next : CommandState) : Except LifecycleError CommandState :=
  if state.canBecome next then .ok next else .error ⟨state, next⟩

/-- The step to another state where it is allowed, and no step otherwise. -/
def becomeIfAllowed (state next : CommandState) : CommandState :=
  if state.canBecome next then next else state

/-- Whether objects and the end may still come. -/
def isRunning : CommandState → Bool
  | began | processing => true
  | _ => false

def isDisposed (state : CommandState) : Bool :=
  state == disposed

end CommandState

def LifecycleError.message (e : LifecycleError) : String :=
  "Illegal lifecycle transition " ++ e.fromState.name ++ " -> " ++ e.toState.name

end CommandChain
