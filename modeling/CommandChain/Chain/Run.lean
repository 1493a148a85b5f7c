import CommandChain.Chain.Delivery
/-!
# Running a chain

A chain is driven in steps: parameters are bound, every command begins, the first one is fed, and
then each command in turn processes what is left for it and ends. Every step stops where the chain
halts. Commands that were still running are told to stop at the end.
-/

namespace CommandChain

/-- What a step of a run leaves: a panic if there was one, the stages and the chain. -/
structure Ran (n : Nat) where
  outcome : Except Panic Unit
  stages : Stages n
  chain : Chain

/-- Binds the parameters of every command. The first failure halts the chain and ends the step. -/
def bindAll (hostInput : Bool) : {n : Nat} → Stages n → Chain → Stages n × Chain
  | _, .nil, chain => (.nil, chain)
  | _, .cons stage rest, chain =>
    match stage.bindStatically chain.adapter (stage.position != 0 || hostInput) with
    | .ok stage =>
      let (rest, chain) := bindAll hostInput rest chain
      (.cons stage rest, chain)
    | .error e =>
      let (stage, chain) := stage.fail chain { e.toRecord with phase := some .bind }
      (.cons stage rest, chain)

/-- Has every command begin, the first one first, until one does not complete. -/
def beginAll : (n : Nat) → Stages n → Chain → Ran n
  | 0, .nil, chain => ⟨.ok (), .nil, chain⟩
  | n + 1, .cons stage rest, chain =>
    if chain.isHalted then ⟨.ok (), .cons stage rest, chain⟩
    else
      let begun := invoke (deliver n) stage rest chain .begin none none
      match begun.outcome with
      | .error p => ⟨.error p, .cons begun.stage begun.rest, begun.chain⟩
      | .ok .ok =>
        let later := beginAll n begun.rest begun.chain
        ⟨later.outcome, .cons begun.stage later.stages, later.chain⟩
      | .ok _ => ⟨.ok (), .cons begun.stage begun.rest, begun.chain⟩

/-- Pushes the objects of the host into the chain until it halts or some command needs no more. -/
def feedObjects {n : Nat} : List Value → Stages n → Chain → Ran n
  | [], stages, chain => ⟨.ok (), stages, chain⟩
  | v :: values, stages, chain =>
    if chain.isHalted || chain.inputCut.isSome then ⟨.ok (), stages, chain⟩
    else
      let (r, chain) := (chain.log (.feeding v)).emit (.object v) .host
      let pushed := deliver n stages chain r
      match pushed.outcome with
      | .error p => ⟨.error p, pushed.stages, pushed.chain⟩
      | .ok _ => feedObjects values pushed.stages pushed.chain

/-- Has the first command process once, without an object. -/
def processHead : {n : Nat} → Stages n → Chain → Ran n
  | _, .nil, chain => ⟨.ok (), .nil, chain⟩
  | _, .cons (n := n) stage rest, chain =>
    let ran := invoke (deliver n) stage rest chain .process none none
    ⟨ran.outcome.map fun _ => (), .cons ran.stage ran.rest, ran.chain⟩

/-- Feeds the first command, with the objects of the host where there are any, and closes its
pipe. A chain without commands takes nothing. -/
def feedHead {n : Nat} (input : Option (List Value)) (stages : Stages n) (chain : Chain) : Ran n :=
  if chain.isHalted || n == 0 then ⟨.ok (), stages, chain⟩
  else
    let fed := match input with
      | some values => feedObjects values stages chain
      | none => processHead stages chain
    match fed.outcome with
    | .error p => ⟨.error p, fed.stages, fed.chain⟩
    | .ok () => ⟨.ok (), fed.stages.closeFirst, fed.chain⟩

/-- What is left once the first pipe is closed behind what was fed into it. -/
def Ran.closeFirst {n : Nat} (fed : Ran n) : Ran n :=
  match fed.outcome with
  | .error p => ⟨.error p, fed.stages, fed.chain⟩
  | .ok () => ⟨.ok (), fed.stages.closeFirst, fed.chain⟩

@[simp] theorem Ran.chain_closeFirst {n : Nat} (fed : Ran n) : fed.closeFirst.chain = fed.chain := by
  unfold closeFirst
  split <;> rfl

theorem feedHead_some {n : Nat} (values : List Value) (stages : Stages n) (chain : Chain) :
    feedHead (some values) stages chain = if chain.isHalted || n == 0 then ⟨.ok (), stages, chain⟩
      else (feedObjects values stages chain).closeFirst :=
  rfl

theorem feedHead_none {n : Nat} (stages : Stages n) (chain : Chain) :
    feedHead none stages chain = if chain.isHalted || n == 0 then ⟨.ok (), stages, chain⟩
      else (processHead stages chain).closeFirst :=
  rfl

/-- The head is passed over, fed with objects or processed once. -/
theorem feedHead_cases {n : Nat} {motive : Ran n → Prop} (input : Option (List Value))
    {stages : Stages n} {chain : Chain} (skipped : motive ⟨.ok (), stages, chain⟩)
    (fed : ∀ values, motive (feedObjects values stages chain).closeFirst)
    (processed : motive (processHead stages chain).closeFirst) :
    motive (feedHead input stages chain) := by
  cases input with
  | some values =>
    rw [feedHead_some]
    split
    · exact skipped
    · exact fed values
  | none =>
    rw [feedHead_none]
    split
    · exact skipped
    · exact processed

/-- Has a stage process the record that waits in its pipe, if any, and sees to it that the pipe has
reported its end. -/
def drain {n : Nat} (push : Push n) (stage : Stage) (rest : Stages n) (chain : Chain) : Settled n :=
  match stage.input.take chain.isHalted with
  | (.record r, pipe) =>
    let settled := processRecord push { stage with input := pipe } rest chain r
    match settled.outcome with
    | .ok .ok =>
      if settled.chain.isHalted then settled
      else { settled with
        stage := { settled.stage with input := settled.stage.input.close } }
    | _ => settled
  | (.empty, pipe) => ⟨.ok .ok, { stage with input := pipe.close }, rest, chain⟩
  | (.endOfInput, pipe) => ⟨.ok .ok, { stage with input := pipe }, rest, chain⟩

/-- Has a command that takes no input process once, unless it already did. -/
def processOnce {n : Nat} (push : Push n) (stage : Stage) (rest : Stages n) (chain : Chain) :
    Settled n :=
  if !stage.acceptsInput && stage.state == .began then
    invoke push stage rest chain .process none none
  else ⟨.ok .ok, stage, rest, chain⟩

/-- Has a running command end. -/
def finishStage {n : Nat} (push : Push n) (stage : Stage) (rest : Stages n) (chain : Chain) :
    Settled n :=
  if stage.state.isRunning then
    let settled := invoke push stage rest chain .finish none none
    match settled.outcome with
    | .ok .ok =>
      { settled with
        stage := { settled.stage with state := settled.stage.state.becomeIfAllowed .ended } }
    | _ => settled
  else ⟨.ok .ok, stage, rest, chain⟩

/-- What one command does in the wave that ends a chain: it drains its pipe, processes once where
it takes no input, and ends, each only while the chain is not halted. -/
def completeStage {n : Nat} (push : Push n) (stage : Stage) (rest : Stages n) (chain : Chain) :
    Settled n :=
  let drained := drain push stage rest chain
  match drained.outcome with
  | .error _ => drained
  | .ok _ =>
    if drained.chain.isHalted then drained
    else
      let once := processOnce push drained.stage drained.rest drained.chain
      match once.outcome with
      | .error _ => once
      | .ok .ok => finishStage push once.stage once.rest once.chain
      | .ok _ =>
        if once.chain.isHalted then once
        else finishStage push once.stage once.rest once.chain

/-- The turn of a command is over once its pipe was drained, once it processed, or once it ended. -/
theorem completeStage_cases {n : Nat} {motive : Settled n → Prop} {push : Push n} {stage : Stage}
    {rest : Stages n} {chain : Chain} {drained once : Settled n}
    (hdrain : drain push stage rest chain = drained)
    (hprocess : processOnce push drained.stage drained.rest drained.chain = once)
    (hdrained : motive drained) (honce : motive once)
    (hfinished : motive (finishStage push once.stage once.rest once.chain)) :
    motive (completeStage push stage rest chain) := by
  subst hdrain hprocess
  unfold completeStage
  dsimp only
  split
  · exact hdrained
  · split
    · exact hdrained
    · split
      · exact honce
      · exact hfinished
      · split
        · exact honce
        · exact hfinished

/-- Ends every command in turn, the first one first, and closes the pipe of the next. Commands that
were cut off are passed over, and a halt ends the wave. -/
def endWave : (n : Nat) → Stages n → Chain → Ran n
  | 0, .nil, chain => ⟨.ok (), .nil, chain⟩
  | n + 1, .cons stage rest, chain =>
    if chain.isHalted then ⟨.ok (), .cons stage rest, chain⟩
    else if chain.isCut stage.position then
      let later := endWave n rest chain
      ⟨later.outcome, .cons stage later.stages, later.chain⟩
    else
      let ended := completeStage (deliver n) stage rest chain
      match ended.outcome with
      | .error p => ⟨.error p, .cons ended.stage ended.rest, ended.chain⟩
      | .ok _ =>
        let later := endWave n ended.rest.closeFirst ended.chain
        ⟨later.outcome, .cons ended.stage later.stages, later.chain⟩

/-- Closes every pipe and tells the commands that are still running to stop. -/
def stopRunning : List Stage → Chain → Except Panic Unit × List Stage × Chain
  | [], chain => (.ok (), [], chain)
  | stage :: rest, chain =>
    let stage := { stage with input := stage.input.close }
    if stage.state.isRunning then
      match stage.callStop chain with
      | (.error p, stage, chain) => (.error p, stage :: rest, chain)
      | (.ok (), stage, chain) =>
        let (outcome, rest, chain) := stopRunning rest chain
        (outcome, { stage with state := stage.state.becomeIfAllowed .stopped } :: rest, chain)
    else
      let (outcome, rest, chain) := stopRunning rest chain
      (outcome, stage :: rest, chain)

end CommandChain
