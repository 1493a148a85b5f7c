import CommandChain.Command
/-!
# The shared state of a chain

All commands of a chain share one sequencer, one stop token and one timeline, and the engine keeps
a journal of what it does: every lifecycle call with its parameters, its result and what became of
it, every object and every record on its way, every signal, cut and failure, in the order in which
they happen.
-/

namespace CommandChain

/-- A step of the engine, as the journal records it. -/
inductive Event where
  /-- A stop token was signaled. -/
  | signaled (token : StopToken)
  /-- A command declared that it needs no further input. -/
  | cut (command : CommandId)
  /-- A lifecycle call began. -/
  | called (command : CommandId) (phase : Phase) (parameters : BoundParameters)
      (input : Option Value)
  /-- A lifecycle call returned. -/
  | returned (command : CommandId) (phase : Phase) (result : CallResult)
  /-- What a lifecycle call returned was settled: the call counts as completed or not. -/
  | settled (command : CommandId) (phase : Phase) (completed : Bool)
  /-- A terminating fault of a command was recorded. -/
  | failed (command : CommandId)
  /-- The host hands an object to the first command. -/
  | feeding (v : Value)
  /-- A command asked to write an object. -/
  | writing (command : CommandId) (v : Value)
  /-- A command received the result of a write. -/
  | wrote (command : CommandId) (result : CallResult)
  /-- A command asked to write a message to the host. -/
  | reporting (command : CommandId) (m : Message)
  /-- A record was made, delivered or not. -/
  | emitted (r : Record)
  /-- A record was handed to the host. -/
  | delivered (r : Record)
  /-- A command was told to stop. -/
  | stopping (command : CommandId)
  /-- A command was disposed of. -/
  | disposing (command : CommandId)

/-- What the commands of one chain share. What has happened is kept with the latest first. -/
structure Chain where
  sequencer : Sequencer
  /-- The records that reached the host, the latest first. -/
  delivered : List Record
  live : LiveChannel
  /-- The chain's own token, derived from the host's. -/
  stop : StopToken
  /-- The error that failed the chain. -/
  fault : Option ErrorRecord
  /-- Commands before this position no longer produce. -/
  inputCut : Option Nat
  /-- A write under a preference to stop: the command whose current call ends with this error. -/
  pendingStop : Option (CommandId × ErrorRecord)
  adapter : Adapter
  scripts : Script.Limits
  flags : StopFlags
  /-- The entries of the timeline, the latest first. -/
  shown : List TimelineEntry
  /-- The steps of the engine, the latest first. -/
  history : List Event

namespace Chain

/-- The records that reached the host, in order. -/
def records (chain : Chain) : List Record :=
  chain.delivered.reverse

/-- The notes of commands and the messages to the host, in order. -/
def timeline (chain : Chain) : List TimelineEntry :=
  chain.shown.reverse

/-- The steps of the engine, in order. -/
def journal (chain : Chain) : List Event :=
  chain.history.reverse

/-- Adds a step to the journal. -/
def log (chain : Chain) (e : Event) : Chain :=
  { chain with history := e :: chain.history }

@[simp] theorem journal_log (chain : Chain) (e : Event) :
    (chain.log e).journal = chain.journal ++ [e] := by
  simp [journal, log]

def isHalted (chain : Chain) : Bool :=
  chain.flags.isSignaled chain.stop

/-- Whether the command at a position has been cut off by a later one. -/
def isCut (chain : Chain) (position : Nat) : Bool :=
  chain.inputCut.any (position < ·)

/-- Cuts off the commands before a position; a cut further down stays. -/
def cutInput (chain : Chain) (id : CommandId) (position : Nat) : Chain :=
  { chain.log (.cut id) with
    inputCut := some (match chain.inputCut with
      | some cut => max cut position
      | none => position) }

def signal (chain : Chain) (token : StopToken) : Chain :=
  { chain.log (.signaled token) with flags := chain.flags.signal token }

/-- Signals several tokens in turn. -/
def signalAll (chain : Chain) (tokens : List StopToken) : Chain :=
  tokens.foldl signal chain

/-- Puts a note on the timeline. -/
def note (chain : Chain) (text : String) : Chain :=
  { chain with shown := .note text :: chain.shown }

@[simp] theorem timeline_note (chain : Chain) (text : String) :
    (chain.note text).timeline = chain.timeline ++ [.note text] := by
  simp [timeline, note]

/-- Puts several notes on the timeline in turn. -/
def noteAll (chain : Chain) (texts : List String) : Chain :=
  texts.foldl note chain

/-- Sends a message to a host that watches. -/
def send (chain : Chain) (m : HostMessage) : Chain :=
  let (live, through) := chain.live.send
  { chain with
    live := live
    shown := if through then .message m :: chain.shown else chain.shown }

/-- Makes the next record on its channel. -/
def emit (chain : Chain) (payload : Payload) (source : RecordSource) : Record × Chain :=
  let (r, sequencer) := chain.sequencer.emit payload source
  (r, { chain.log (.emitted r) with sequencer := sequencer })

/-- Hands a record to the host. -/
def deliverToHost (chain : Chain) (r : Record) : Chain :=
  let chain := (chain.send (.record r)).log (.delivered r)
  { chain with delivered := r :: chain.delivered }

@[simp] theorem records_deliverToHost (chain : Chain) (r : Record) :
    (chain.deliverToHost r).records = chain.records ++ [r] := by
  simp [records, deliverToHost, send, log]

/-- Makes an error record and hands it to the host. -/
def emitError (chain : Chain) (source : RecordSource) (e : ErrorRecord) : Chain :=
  let (r, chain) := chain.emit (.message (.error e)) source
  chain.deliverToHost r

/-- Ends the current call of a command with an error once it returns. The first error stays. -/
def escalateAfterCall (chain : Chain) (id : CommandId) (e : ErrorRecord) : Chain :=
  { chain with pendingStop := some (chain.pendingStop.getD (id, e)) }

/-- Whether the current call of a command is going to end with an error. -/
def hasPendingStop (chain : Chain) (id : CommandId) : Bool :=
  chain.pendingStop.any (·.1 == id)

/-- Takes the error with which the current call of a command has to end. -/
def takePendingStop (chain : Chain) (id : CommandId) : Option ErrorRecord × Chain :=
  match chain.pendingStop with
  | some (owner, e) => if owner == id then (some e, { chain with pendingStop := none })
    else (none, chain)
  | none => (none, chain)

/-- Where nothing is pending there is nothing to settle. -/
theorem takePendingStop_of_none {chain : Chain} (h : chain.pendingStop = none) (id : CommandId) :
    chain.takePendingStop id = (none, chain) := by
  rw [takePendingStop, h]

/-- Takes over what a chain run by a command left behind. -/
def absorb (chain : Chain) (report : ChainReport) : Chain :=
  (chain.noteAll report.notes).signalAll report.signals

/-- The status of the chain as it stands. -/
def status (chain : Chain) : Status :=
  if chain.fault.isSome then .failed
  else if chain.isHalted then .stopped
  else .succeeded

end Chain

end CommandChain
