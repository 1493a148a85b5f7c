import CommandChain.Chain.Pipeline
/-!
# Chains within chains

A command may run a chain of its own. Its stop token is derived from a token of the caller, so a
halt of the caller reaches it; what happens to its own token stays with it.
-/

namespace CommandChain

/-- The text of a note on the timeline. -/
def TimelineEntry.note? : TimelineEntry → Option String
  | .note text => some text
  | .message _ => none

/-- A message on the timeline. -/
def TimelineEntry.message? : TimelineEntry → Option HostMessage
  | .note _ => none
  | .message m => some m

/-- The tokens of the caller that a chain has signaled, in order; they are known from the number of
flags there were before. -/
def Chain.signaledBelow (chain : Chain) (count : Nat) : List StopToken :=
  chain.journal.filterMap fun
    | .signaled token => if token.flag < count then some token else none
    | _ => none

/-- Runs a chain under a token of the caller, or under one of its own. -/
def ChainReport.ofRun (settings : ChainSettings) (parent : Option StopToken)
    (specs : List CommandSpec) (input : Option (List Value)) (flags : StopFlags) : ChainReport :=
  let (host, started) := match parent with
    | some token => (token, flags)
    | none => flags.newToken
  let (outcome, p) := (Pipeline.build settings host started specs).invoke input
  { notes := p.chain.timeline.filterMap TimelineEntry.note?
    signals := p.chain.signaledBelow flags.count
    outcome := outcome }

end CommandChain
