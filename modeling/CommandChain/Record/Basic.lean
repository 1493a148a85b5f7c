import CommandChain.Lifecycle
import CommandChain.Timestamp
import CommandChain.Value.Basic
/-!
# Records

Everything a command emits is a record: a result object, or a message on one of six side channels.
A record carries its source and its number on its channel; `Sequencer.emit` hands out the numbers.
-/

namespace CommandChain

/-- The channel a record travels on. -/
inductive RecordKind where
  | object
  | error
  | warning
  | verbose
  | debug
  | information
  | progress
deriving DecidableEq

namespace RecordKind

def name : RecordKind → String
  | object => "Object"
  | error => "Error"
  | warning => "Warning"
  | verbose => "Verbose"
  | debug => "Debug"
  | information => "Information"
  | progress => "Progress"

def all : List RecordKind :=
  [object, error, warning, verbose, debug, information, progress]

/-- Whether records of the channel go past the following commands to the host. -/
def isOutOfBand (kind : RecordKind) : Bool :=
  kind != object

end RecordKind

/-- A broad class of errors. -/
inductive ErrorCategory where
  | notSpecified
  | invalidArgument
  | invalidData
  | invalidOperation
  | invalidType
  | objectNotFound
  | operationStopped
  | parserError
  | resourceUnavailable
  /-- Raised while parameters are bound. -/
  | binding
  /-- Raised while a command is disposed of. -/
  | cleanup
deriving DecidableEq

namespace ErrorCategory

def name : ErrorCategory → String
  | notSpecified => "NotSpecified"
  | invalidArgument => "InvalidArgument"
  | invalidData => "InvalidData"
  | invalidOperation => "InvalidOperation"
  | invalidType => "InvalidType"
  | objectNotFound => "ObjectNotFound"
  | operationStopped => "OperationStopped"
  | parserError => "ParserError"
  | resourceUnavailable => "ResourceUnavailable"
  | binding => "Binding"
  | cleanup => "Cleanup"

def all : List ErrorCategory :=
  [notSpecified, invalidArgument, invalidData, invalidOperation, invalidType, objectNotFound,
    operationStopped, parserError, resourceUnavailable, binding, cleanup]

def ofName? (s : String) : Option ErrorCategory :=
  all.find? (·.name == s)

end ErrorCategory

/-- An error. Commands describe it, and the engine adds where and how it surfaced. -/
structure ErrorRecord where
  message : String := ""
  category : ErrorCategory := .notSpecified
  errorId : String := ""
  /-- The object being processed when the error occurred. -/
  target : Option Value := none
  /-- Whether the error ended the command and with it the chain. -/
  terminating : Bool := false
  phase : Option Phase := none
  duringCleanup : Bool := false

/-- The text of an error as it is shown. -/
def ErrorRecord.display (e : ErrorRecord) : String :=
  if e.duringCleanup then "during cleanup: " ++ e.message else e.message

/-- A structured informational message. -/
structure InformationRecord where
  data : Value
  tags : List String := []
  /-- When the message was made, where that is known. -/
  time : Option Timestamp := none

/-- The progress of a long activity. -/
structure ProgressRecord where
  activityId : Int
  activity : String
  status : String
  percent : Option Nat := none
  completed : Bool := false

namespace ProgressRecord

/-- Sets the completed share, at most one hundred. -/
def withPercent (p : ProgressRecord) (percent : Nat) : ProgressRecord :=
  { p with percent := some (min percent 100) }

/-- Marks the activity as completed. -/
def complete (p : ProgressRecord) : ProgressRecord :=
  { p with completed := true, percent := some 100 }

end ProgressRecord

/-- What a record carries on a side channel. -/
inductive Message where
  | error (e : ErrorRecord)
  | warning (text : String)
  | verbose (text : String)
  | debug (text : String)
  | information (info : InformationRecord)
  | progress (p : ProgressRecord)

def Message.kind : Message → RecordKind
  | .error _ => .error
  | .warning _ => .warning
  | .verbose _ => .verbose
  | .debug _ => .debug
  | .information _ => .information
  | .progress _ => .progress

/-- What a record carries. -/
inductive Payload where
  | object (v : Value)
  | message (m : Message)

def Payload.kind : Payload → RecordKind
  | .object _ => .object
  | .message m => m.kind

/-- The identity of a command within its chain: its position, or the host's own number. -/
structure CommandId where
  number : Nat
deriving DecidableEq

namespace CommandId

/-- The identity under which the host emits. -/
def host : CommandId := ⟨4294967295⟩

/-- Whether the identity is that of the host. -/
def isHost (id : CommandId) : Bool :=
  id == host

def display (id : CommandId) : String :=
  if id.isHost then "CommandId(HOST)" else "CommandId(" ++ Decimal.natText id.number ++ ")"

end CommandId

/-- Who emitted a record. -/
structure RecordSource where
  id : CommandId
  name : String
deriving DecidableEq

/-- The host as the source of the objects it feeds. -/
def RecordSource.host : RecordSource :=
  ⟨.host, "Host"⟩

structure Record where
  payload : Payload
  source : RecordSource
  sequence : Nat

namespace Record

def kind (r : Record) : RecordKind :=
  r.payload.kind

/-- The object of an object record. -/
def object? (r : Record) : Option Value :=
  match r.payload with
  | .object v => some v
  | .message _ => none

/-- The error of an error record. -/
def error? (r : Record) : Option ErrorRecord :=
  match r.payload with
  | .message (.error e) => some e
  | _ => none

/-- The text of a warning, verbose or debug record. -/
def text? (r : Record) : Option String :=
  match r.payload with
  | .message (.warning s) | .message (.verbose s) | .message (.debug s) => some s
  | _ => none

end Record

/-- The numbers of the next record on each channel. -/
structure Sequencer where
  object : Nat := 0
  error : Nat := 0
  warning : Nat := 0
  verbose : Nat := 0
  debug : Nat := 0
  information : Nat := 0
  progress : Nat := 0
deriving DecidableEq

namespace Sequencer

/-- The number of records emitted so far on a channel. -/
def emitted (s : Sequencer) : RecordKind → Nat
  | .object => s.object
  | .error => s.error
  | .warning => s.warning
  | .verbose => s.verbose
  | .debug => s.debug
  | .information => s.information
  | .progress => s.progress

/-- Counts one more record on a channel. -/
def advance (s : Sequencer) : RecordKind → Sequencer
  | .object => { s with object := s.object + 1 }
  | .error => { s with error := s.error + 1 }
  | .warning => { s with warning := s.warning + 1 }
  | .verbose => { s with verbose := s.verbose + 1 }
  | .debug => { s with debug := s.debug + 1 }
  | .information => { s with information := s.information + 1 }
  | .progress => { s with progress := s.progress + 1 }

/-- The next record on the channel of the payload. -/
def emit (s : Sequencer) (payload : Payload) (source : RecordSource) : Record × Sequencer :=
  (⟨payload, source, s.emitted payload.kind⟩, s.advance payload.kind)

theorem emitted_advance (s : Sequencer) (kind other : RecordKind) :
    (s.advance kind).emitted other = s.emitted other + if kind = other then 1 else 0 := by
  cases kind <;> cases other <;> rfl

end Sequencer

end CommandChain
