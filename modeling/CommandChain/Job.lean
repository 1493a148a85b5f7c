import CommandChain.Chain.Nested
import CommandChain.EngineError
/-!
# Jobs

A job runs a chain beside its host. The host receives every message over a channel without a bound,
and joins the job to learn its outcome; a chain that panicked has none.
-/

namespace CommandChain

/-- A job that has ended. -/
structure Job where
  /-- The messages to the host, in order. -/
  messages : List HostMessage
  /-- The notes of the commands, in order. -/
  notes : List String
  outcome : Except Panic Outcome

namespace Job

/-- Runs a chain as a job. -/
def run (settings : ChainSettings) (host : StopToken) (flags : StopFlags)
    (specs : List CommandSpec) (input : Option (List Value)) : Job :=
  let p := Pipeline.build { settings with live := .connected none } host flags specs
  let (outcome, p) := p.invoke input
  { messages := p.chain.timeline.filterMap TimelineEntry.message?
    notes := p.chain.timeline.filterMap TimelineEntry.note?
    outcome := outcome }

/-- The outcome of the job. -/
def join (job : Job) : Except EngineError Outcome :=
  match job.outcome with
  | .ok outcome => .ok outcome
  | .error _ => .error (.job "the chain panicked")

/-- The records among the messages. -/
def records (job : Job) : List Record :=
  job.messages.filterMap fun
    | .record r => some r
    | .completed .. => none

end Job

end CommandChain
