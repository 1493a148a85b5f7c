import CommandChain.Parameter.Binding
import CommandChain.Pipe
import CommandChain.Record.Basic
/-!
# Faults

A lifecycle call completes, is stopped, or faults. A terminating fault ends the command and the
chain; after any other fault the chain goes on. A panic is no result at all: it unwinds every call
that is under way.
-/

namespace CommandChain

/-- What a panic carries. -/
inductive Panic where
  | text (s : String)
  /-- Something without a text. -/
  | other
deriving DecidableEq

/-- A fault raised by a command. -/
structure CommandFault where
  terminating : Bool
  error : ErrorRecord

/-- How a lifecycle call ended. -/
inductive CallResult where
  | ok
  /-- The chain is halting; there is nothing further to report. -/
  | stopped
  | fault (f : CommandFault)

namespace CallResult

/-- Whether a call completed. -/
def isOk : CallResult → Bool
  | ok => true
  | _ => false

def terminating (e : ErrorRecord) : CallResult :=
  .fault ⟨true, e⟩

/-- A fault after which the chain goes on. -/
def nonTerminating (e : ErrorRecord) : CallResult :=
  .fault ⟨false, e⟩

end CallResult

/-- The error record of a failed binding. -/
def BindingError.toRecord (e : BindingError) : ErrorRecord :=
  { message := e.message, category := .binding, errorId := e.errorId }

/-- The fault of a step that no command may take. -/
def LifecycleError.fault (e : LifecycleError) : CommandFault where
  terminating := true
  error :=
    { message := e.message
      category := .invalidOperation
      errorId := "IllegalLifecycleTransition" }

/-- The fault of a refused write to a pipe. -/
def PipeError.fault (e : PipeError) : CommandFault where
  terminating := true
  error := { message := e.message, category := .invalidOperation, errorId := "PipeFailure" }

/-- The error of an object written while commands begin. -/
def writeInBegin : ErrorRecord :=
  { message := "Objects cannot be written before the pipeline has begun"
    category := .invalidOperation
    errorId := "WriteObjectInBegin" }

/-- The error of a record written on a channel whose preference is to stop. -/
def preferenceStop (kind : RecordKind) : ErrorRecord :=
  { message := "The running command stopped because the " ++ kind.name
      ++ " preference is set to Stop"
    category := .operationStopped
    errorId := "ActionPreferenceStop" }

end CommandChain
