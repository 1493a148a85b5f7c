import CommandChain.Record.Basic
/-!
# Outcomes

What the host receives: every record that reaches it, while the chain runs and again at the end,
and the status with which the chain completed.
-/

namespace CommandChain

/-- How a chain completed. -/
inductive Status where
  | succeeded
  | failed
  | stopped
deriving DecidableEq

def Status.name : Status → String
  | .succeeded => "Succeeded"
  | .failed => "Failed"
  | .stopped => "Stopped"

/-- What the host receives when a chain completes. -/
structure Outcome where
  status : Status
  /-- The objects of the last command and every delivered message, in the order of delivery. -/
  records : List Record
  /-- The error that failed the chain. -/
  terminalFault : Option ErrorRecord

namespace Outcome

def succeeded (o : Outcome) : Bool :=
  o.status == .succeeded

/-- The records of one channel. -/
def ofKind (o : Outcome) (kind : RecordKind) : List Record :=
  o.records.filter (·.kind == kind)

/-- The objects that reached the host. -/
def outputValues (o : Outcome) : List Value :=
  o.records.filterMap Record.object?

/-- The errors that reached the host. -/
def errors (o : Outcome) : List ErrorRecord :=
  o.records.filterMap Record.error?

/-- The texts of the messages on one channel. -/
def texts (o : Outcome) (kind : RecordKind) : List String :=
  (o.ofKind kind).filterMap Record.text?

end Outcome

/-- A message to a host that watches a chain run. -/
inductive HostMessage where
  | record (r : Record)
  /-- The chain has completed; nothing follows. -/
  | completed (status : Status) (terminalFault : Option ErrorRecord)

/-- The channel over which a host watches a chain. -/
inductive LiveChannel where
  | absent
  /-- Connected, for that many more messages where there is a bound. -/
  | connected (messages : Option Nat)
deriving DecidableEq

/-- The state of the channel after an attempt to send, and whether the message went through. A
channel that turns out to be disconnected is given up. -/
def LiveChannel.send : LiveChannel → LiveChannel × Bool
  | absent => (absent, false)
  | connected none => (connected none, true)
  | connected (some 0) => (absent, false)
  | connected (some (n + 1)) => (connected (some n), true)

/-- An entry of the timeline on which notes of commands and messages to the host appear in the
order in which they happened. -/
inductive TimelineEntry where
  | note (text : String)
  | message (m : HostMessage)

end CommandChain
