import CommandChain.Chain.Pipeline
/-!
# The moments of a run

A run passes through moments: before and after every request of a hook, around every lifecycle call,
and wherever the engine is about to touch a pipe. A moment holds the commands of the chain with their
pipes, and the state that they share. The moments of each function of the engine are listed here along
the function itself; those behind a command are moments of the chain once the command is put in front
of them. A chain that a command runs is a run of its own, with moments of its own.
-/

namespace CommandChain

/-- Where control is at a moment of a run. -/
inductive Control : Type 1 where
  /-- In the engine, between two lifecycle calls. -/
  | between
  /-- Inside a hook of a command. -/
  | inside (command : CommandId)
  /-- In the engine, which is about to write a record to the pipe of a stage. -/
  | writing (stage : Stage) (r : Record)
  /-- In the engine, which has just written to the pipe of a stage and is about to read from it. -/
  | passing (stage : Stage)
  /-- In the engine, which is about to look into the pipe of a stage that is to end. -/
  | draining (stage : Stage)

/-- A moment of a run. -/
structure Moment : Type 1 where
  control : Control
  stages : List Stage
  chain : Chain

/-- A moment of the stages behind one, as a moment of the row that it heads. -/
def Moment.behind (stage : Stage) (m : Moment) : Moment :=
  { m with stages := stage :: m.stages }

variable {n : Nat}

/-- The moment after a push. -/
def Pushed.moment (pushed : Pushed n) : Moment :=
  ⟨.between, pushed.stages.toList, pushed.chain⟩

/-- The moment after a lifecycle call. -/
def Settled.moment (settled : Settled n) : Moment :=
  ⟨.between, settled.stage :: settled.rest.toList, settled.chain⟩

/-- The moment after a step of a run. -/
def Ran.moment (ran : Ran n) : Moment :=
  ⟨.between, ran.stages.toList, ran.chain⟩

/-- The moments of a push into a row of stages. -/
abbrev Passage (n : Nat) := Stages n → Chain → Record → List Moment

/-! ## Calls -/

/-- A moment inside a hook, given what the command remembers by then. -/
def Stage.hookMoment (stage : Stage) (memory : stage.command.Memory) (rest : Stages n)
    (chain : Chain) : Moment :=
  ⟨.inside stage.id, { stage with memory := memory } :: rest.toList, chain⟩

/-- The moments of writing an object to the stages behind a command. -/
def Call.writeMoments (call : Call) (passage : Passage n) (v : Value) (rest : Stages n)
    (chain : Chain) : List Moment :=
  if call.isStopping chain then []
  else if call.phase == .begin then []
  else
    let (r, chain) := chain.emit (.object v) call.source
    passage rest chain r

/-- The moments of a hook while its requests are answered. -/
def serveMoments (stage : Stage) (call : Call) (push : Push n) (passage : Passage n) :
    Hook stage.command.Memory → stage.command.Memory → Stages n → Chain → List Moment
  | .done _, memory, rest, chain => [stage.hookMoment memory rest chain]
  | .panic _, memory, rest, chain => [stage.hookMoment memory rest chain]
  | .store memory' next, memory, rest, chain =>
    stage.hookMoment memory rest chain :: serveMoments stage call push passage next memory' rest chain
  | .write v next, memory, rest, chain =>
    let asked := chain.log (.writing call.id v)
    let pushed := call.writeObject push v rest asked
    stage.hookMoment memory rest chain ::
      ((call.writeMoments passage v rest asked).map (·.behind { stage with memory := memory })
        ++ match pushed.outcome with
          | .error _ => []
          | .ok result =>
            serveMoments stage call push passage (next result) memory pushed.stages
              (pushed.chain.log (.wrote call.id result)))
  | .report m next, memory, rest, chain =>
    let (result, reported) := call.report m (chain.log (.reporting call.id m))
    stage.hookMoment memory rest chain ::
      serveMoments stage call push passage (next result) memory rest reported
  | .cutInput next, memory, rest, chain =>
    stage.hookMoment memory rest chain ::
      serveMoments stage call push passage next memory rest (chain.cutInput call.id call.position)
  | .askStopping next, memory, rest, chain =>
    stage.hookMoment memory rest chain ::
      serveMoments stage call push passage (next (call.isStopping chain)) memory rest chain
  | .note text next, memory, rest, chain =>
    stage.hookMoment memory rest chain ::
      serveMoments stage call push passage next memory rest (chain.note text)
  | .signal token next, memory, rest, chain =>
    stage.hookMoment memory rest chain ::
      serveMoments stage call push passage next memory rest (chain.signal token)
  | .askSignaled token next, memory, rest, chain =>
    stage.hookMoment memory rest chain ::
      serveMoments stage call push passage (next (chain.flags.isSignaled token)) memory rest chain
  | .runChain run next, memory, rest, chain =>
    let report := run chain.flags
    stage.hookMoment memory rest chain ::
      match report.outcome with
      | .error _ => []
      | .ok outcome =>
        serveMoments stage call push passage (next outcome) memory rest (chain.absorb report)

/-- The moments of a lifecycle call. -/
def invokeMoments (push : Push n) (passage : Passage n) (stage : Stage) (rest : Stages n)
    (chain : Chain) (phase : Phase) (bound : Option BoundParameters) (input : Option Value) :
    List Moment :=
  (match stage.state.entering phase with
    | .error _ => []
    | .ok state =>
      let stage := { stage with state := state }
      let parameters := bound.getD stage.bound
      let call := stage.call chain phase parameters input
      serveMoments stage call push passage (stage.command.hook call stage.memory) stage.memory rest
        (chain.log (.called stage.id phase parameters input)))
    ++ [(invoke push stage rest chain phase bound input).moment]

/-- The moments of processing a record that was read. -/
def processMoments (push : Push n) (passage : Passage n) (stage : Stage) (rest : Stages n)
    (chain : Chain) (r : Record) : List Moment :=
  match r.object? with
  | none => []
  | some v =>
    if !stage.state.isRunning then []
    else match (stage.binder chain.adapter).bindObject stage.bound v with
      | .ok bound => invokeMoments push passage stage rest chain .process (some bound) (some v)
      | .error _ => []

/-- The moments of a push: the record is written to the pipe of the nearest stage and read from it
before anything else happens. -/
def deliverMoments : (n : Nat) → Passage n
  | 0, .nil, chain, r => [(deliver 0 .nil chain r).moment]
  | n + 1, .cons stage rest, chain, r =>
    (if chain.isHalted then []
      else
        ⟨.writing stage r, stage :: rest.toList, chain⟩ ::
          match stage.input.write chain.isHalted r with
          | .error _ => []
          | .ok pipe =>
            let holding := { stage with input := pipe }
            ⟨.passing holding, holding :: rest.toList, chain⟩ ::
              match pipe.take chain.isHalted with
              | (.record r, pipe) =>
                processMoments (deliver n) (deliverMoments n) { stage with input := pipe } rest chain r
              | _ => [])
      ++ [(deliver (n + 1) (.cons stage rest) chain r).moment]

/-! ## The steps of a run -/

/-- The moments of binding the parameters of the commands. -/
def bindMoments (hostInput : Bool) : {n : Nat} → Stages n → Chain → List Moment
  | _, .nil, chain => [⟨.between, [], chain⟩]
  | _, .cons stage rest, chain =>
    ⟨.between, stage :: rest.toList, chain⟩ ::
      match stage.bindStatically chain.adapter (stage.position != 0 || hostInput) with
      | .ok stage => (bindMoments hostInput rest chain).map (·.behind stage)
      | .error e =>
        let (stage, chain) := stage.fail chain { e.toRecord with phase := some .bind }
        [⟨.between, stage :: rest.toList, chain⟩]

/-- The moments of having the commands begin. -/
def beginMoments : (n : Nat) → Stages n → Chain → List Moment
  | 0, .nil, _ => []
  | n + 1, .cons stage rest, chain =>
    if chain.isHalted then []
    else
      let begun := invoke (deliver n) stage rest chain .begin none none
      invokeMoments (deliver n) (deliverMoments n) stage rest chain .begin none none
        ++ match begun.outcome with
          | .ok .ok => (beginMoments n begun.rest begun.chain).map (·.behind begun.stage)
          | _ => []

/-- The moments of pushing the objects of the host into the chain. -/
def feedMoments : List Value → Stages n → Chain → List Moment
  | [], _, _ => []
  | v :: values, stages, chain =>
    if chain.isHalted || chain.inputCut.isSome then []
    else
      let (r, chain) := (chain.log (.feeding v)).emit (.object v) .host
      let pushed := deliver n stages chain r
      deliverMoments n stages chain r
        ++ match pushed.outcome with
          | .error _ => []
          | .ok _ => feedMoments values pushed.stages pushed.chain

/-- The moments of having the first command process once. -/
def headMoments : {n : Nat} → Stages n → Chain → List Moment
  | _, .nil, _ => []
  | _, .cons (n := n) stage rest, chain =>
    invokeMoments (deliver n) (deliverMoments n) stage rest chain .process none none

/-- The moments of feeding the first command. -/
def feedHeadMoments (input : Option (List Value)) (stages : Stages n) (chain : Chain) :
    List Moment :=
  (if chain.isHalted || n == 0 then []
    else match input with
      | some values => feedMoments values stages chain
      | none => headMoments stages chain)
    ++ [(feedHead input stages chain).moment]

/-- The moments of draining a pipe. -/
def drainMoments (push : Push n) (passage : Passage n) (stage : Stage) (rest : Stages n)
    (chain : Chain) : List Moment :=
  ⟨.draining stage, stage :: rest.toList, chain⟩ ::
    ((match stage.input.take chain.isHalted with
      | (.record r, pipe) => processMoments push passage { stage with input := pipe } rest chain r
      | _ => [])
      ++ [(drain push stage rest chain).moment])

/-- The moments of having a command process once. -/
def onceMoments (push : Push n) (passage : Passage n) (stage : Stage) (rest : Stages n)
    (chain : Chain) : List Moment :=
  if !stage.acceptsInput && stage.state == .began then
    invokeMoments push passage stage rest chain .process none none
  else []

/-- The moments of having a command end. -/
def finishMoments (push : Push n) (passage : Passage n) (stage : Stage) (rest : Stages n)
    (chain : Chain) : List Moment :=
  if stage.state.isRunning then
    invokeMoments push passage stage rest chain .finish none none
      ++ [(finishStage push stage rest chain).moment]
  else []

/-- The moments of what one command does in the wave that ends a chain. -/
def completeMoments (push : Push n) (passage : Passage n) (stage : Stage) (rest : Stages n)
    (chain : Chain) : List Moment :=
  let drained := drain push stage rest chain
  drainMoments push passage stage rest chain
    ++ match drained.outcome with
      | .error _ => []
      | .ok _ =>
        if drained.chain.isHalted then []
        else
          let once := processOnce push drained.stage drained.rest drained.chain
          onceMoments push passage drained.stage drained.rest drained.chain
            ++ match once.outcome with
              | .error _ => []
              | .ok .ok => finishMoments push passage once.stage once.rest once.chain
              | .ok _ =>
                if once.chain.isHalted then []
                else finishMoments push passage once.stage once.rest once.chain

/-- The moments of the wave that ends a chain. -/
def endMoments : (n : Nat) → Stages n → Chain → List Moment
  | 0, .nil, _ => []
  | n + 1, .cons stage rest, chain =>
    if chain.isHalted then []
    else if chain.isCut stage.position then (endMoments n rest chain).map (·.behind stage)
    else
      let ended := completeStage (deliver n) stage rest chain
      completeMoments (deliver n) (deliverMoments n) stage rest chain
        ++ match ended.outcome with
          | .error _ => []
          | .ok _ =>
            let closed := ended.rest.closeFirst
            ⟨.between, ended.stage :: closed.toList, ended.chain⟩ ::
              (endMoments n closed ended.chain).map (·.behind ended.stage)

/-- The moments of telling the commands that are still running to stop. -/
def stopMoments : List Stage → Chain → List Moment
  | [], chain => [⟨.between, [], chain⟩]
  | stage :: rest, chain =>
    let stage := { stage with input := stage.input.close }
    if stage.state.isRunning then
      ⟨.inside stage.id, stage :: rest, chain⟩ ::
        match stage.callStop chain with
        | (.error _, stage, chain) => [⟨.between, stage :: rest, chain⟩]
        | (.ok (), stage, chain) =>
          (stopMoments rest chain).map
            (·.behind { stage with state := stage.state.becomeIfAllowed .stopped })
    else (stopMoments rest chain).map (·.behind stage)

/-! ## Releases and whole runs -/

/-- The moments of releasing one command: those inside its stop and dispose hooks, and the one
after them. -/
def Stage.releaseMoments (stage : Stage) (rest : List Stage) (chain : Chain) : List Moment :=
  (if stage.state.isRunning then
      ⟨.inside stage.id, stage :: rest, chain⟩ ::
        match stage.callStop chain with
        | (.error _, _, _) => []
        | (.ok (), stage, chain) =>
          [⟨.inside stage.id, { stage with state := .stopped } :: rest, chain⟩]
    else [⟨.inside stage.id, stage :: rest, chain⟩])
    ++ [⟨.between, (stage.release chain).2.1 :: rest, (stage.release chain).2.2⟩]

/-- The moments of a round of releases, the last command first. -/
def DisposalManager.releaseMoments (manager : DisposalManager) (chain : Chain) :
    List Stage → List Moment
  | [] => []
  | stage :: rest =>
    let later := manager.releaseAll Stage.releasable chain rest
    (manager.releaseMoments chain rest).map (·.behind stage)
      ++ if later.manager.isDue Stage.releasable stage then
        stage.releaseMoments later.items later.surroundings
      else []

namespace Pipeline

/-- The moments of the steps of a run up to the end of the last command. -/
def stepMoments (input : Option (List Value)) (stages : Stages n) (chain : Chain) : List Moment :=
  let bound := bindAll input.isSome stages chain
  let begun := beginAll n bound.1 bound.2
  bindMoments input.isSome stages chain
    ++ (beginMoments n bound.1 bound.2
      ++ match begun.outcome with
        | .error _ => []
        | .ok () =>
          let fed := feedHead input begun.stages begun.chain
          feedHeadMoments input begun.stages begun.chain
            ++ match fed.outcome with
              | .error _ => []
              | .ok () => endMoments n fed.stages fed.chain)

/-- The moment of a pipeline between two calls. -/
def moment (p : Pipeline) : Moment :=
  ⟨.between, p.stages, p.chain⟩

/-- The moments of releasing all commands. -/
def releaseMoments (p : Pipeline) : List Moment :=
  p.disposal.releaseMoments p.chain p.stages ++ [p.releaseAll.2.moment]

/-- The moments of running a chain. -/
def runMoments (p : Pipeline) (input : Option (List Value)) : List Moment :=
  let ran := steps input (.ofList p.stages) p.chain
  stepMoments input (.ofList p.stages) p.chain
    ++ (match ran.outcome with
        | .error _ => []
        | .ok () =>
          stopMoments ran.stages.toList ran.chain
            ++ match stopRunning ran.stages.toList ran.chain with
              | (.error _, _, _) => []
              | (.ok (), stages, chain) =>
                releaseMoments { p with stages := stages, chain := chain })
      ++ [(p.run input).2.moment]

/-- The moments of running a chain and giving it up. -/
def moments (p : Pipeline) (input : Option (List Value)) : List Moment :=
  let ended := (p.run input).2
  p.runMoments input
    ++ (if ended.stages.all (·.state.isDisposed) then [] else ended.releaseMoments)
      ++ [(p.invoke input).2.moment]

end Pipeline

end CommandChain
