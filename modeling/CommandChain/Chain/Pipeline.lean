import CommandChain.Chain.Run
/-!
# Pipelines

A pipeline is a chain of commands that can run once. However a run ends, every command is released:
by the run itself, or when a panic unwinds it, or when a pipeline that never ran is given up. One
manager oversees all releases, so none is attempted twice.
-/

namespace CommandChain

/-- How a chain is set up. -/
structure ChainSettings where
  preferences : Preferences := {}
  /-- What an object that cannot be bound does, where a command does not say. -/
  bindingErrors : BindingErrorAction := .terminating
  scripts : Script.Limits := {}
  adapter : Adapter := .standard .empty
  live : LiveChannel := .absent

/-- A chain of commands. -/
structure Pipeline : Type 1 where
  stages : List Stage
  chain : Chain
  disposal : DisposalManager

namespace Pipeline

/-- The stages of some commands, the first of which stands at a given position. -/
def stagesFrom (settings : ChainSettings) : Nat → List CommandSpec → List Stage
  | _, [] => []
  | position, spec :: rest =>
    { position := position
      command := spec.command
      memory := spec.command.fresh
      arguments := spec.arguments
      state := .created
      bound := .empty
      preferences := settings.preferences
      bindingErrors := spec.bindingErrors.getD settings.bindingErrors
      input := {} } :: stagesFrom settings (position + 1) rest

/-- A pipeline of commands under a token derived from that of the host. -/
def build (settings : ChainSettings) (host : StopToken) (flags : StopFlags)
    (specs : List CommandSpec) : Pipeline :=
  let (stop, flags) := flags.childOf host
  { stages := stagesFrom settings 0 specs
    chain :=
      { sequencer := {}
        delivered := []
        live := settings.live
        stop := stop
        fault := none
        inputCut := none
        pendingStop := none
        adapter := settings.adapter
        scripts := settings.scripts
        flags := flags
        shown := []
        history := [] }
    disposal := .fresh }

def commandNames (p : Pipeline) : List String :=
  p.stages.map (·.command.name)

/-- Releases every command whose release was not attempted, the last first. -/
def releaseAll (p : Pipeline) : List CleanupFault × Pipeline :=
  let round := p.disposal.releaseAll Stage.releasable p.chain p.stages
  (round.faults, ⟨round.items, round.surroundings, round.manager⟩)

/-- The source of the records of a command of the pipeline. -/
def sourceOf (p : Pipeline) (id : CommandId) : RecordSource :=
  match p.stages.find? (·.id == id) with
  | some stage => stage.source
  | none => .host

/-- Reports the faults of the cleanup to the host. -/
def reportCleanup (p : Pipeline) : List CleanupFault → Pipeline
  | [] => p
  | fault :: rest =>
    reportCleanup { p with chain := p.chain.emitError (p.sourceOf fault.command) fault.error } rest

/-- The outcome of the chain as it stands. -/
def outcome (p : Pipeline) : Outcome :=
  ⟨p.chain.status, p.chain.records, p.chain.fault⟩

/-- Releases the commands, reports what went wrong, and completes the chain. -/
def complete (p : Pipeline) : Outcome × Pipeline :=
  let (faults, released) := p.releaseAll
  let p := released.reportCleanup faults
  let o := p.outcome
  (o, { p with chain := p.chain.send (.completed o.status o.terminalFault) })

/-- The steps of a run up to the end of the last command. -/
def steps {n : Nat} (input : Option (List Value)) (stages : Stages n) (chain : Chain) : Ran n :=
  let (stages, chain) := bindAll input.isSome stages chain
  let begun := beginAll n stages chain
  match begun.outcome with
  | .error _ => begun
  | .ok () =>
    let fed := feedHead input begun.stages begun.chain
    match fed.outcome with
    | .error _ => fed
    | .ok () => endWave n fed.stages fed.chain

/-- Runs the chain, with the objects of the host where it supplies any. After a panic the commands
are as it left them. -/
def run (p : Pipeline) (input : Option (List Value)) : Except Panic Outcome × Pipeline :=
  let ran := steps input (.ofList p.stages) p.chain
  match ran.outcome with
  | .error e => (.error e, { p with stages := ran.stages.toList, chain := ran.chain })
  | .ok () =>
    match stopRunning ran.stages.toList ran.chain with
    | (.error e, stages, chain) => (.error e, { p with stages := stages, chain := chain })
    | (.ok (), stages, chain) =>
      let (o, p) := complete { p with stages := stages, chain := chain }
      (.ok o, p)

/-- Gives the pipeline up: commands that are not disposed of are released, and what goes wrong
then is not reported. -/
def drop (p : Pipeline) : Pipeline :=
  if p.stages.all (·.state.isDisposed) then p else p.releaseAll.2

/-- Runs the chain and gives it up. -/
def invoke (p : Pipeline) (input : Option (List Value)) : Except Panic Outcome × Pipeline :=
  let (outcome, p) := p.run input
  (outcome, p.drop)

end Pipeline

end CommandChain
