import CommandChain.Chain.Stage
/-!
# Delivery

A record is pushed into the nearest stage and processed there before the push returns; the writes
of that stage push into the stages behind it in turn, and with no stage left the record belongs to
the host. `serve` answers the requests of a hook, `invoke` runs one lifecycle call and settles its
result, and `deliver` ties them together by recursion on the number of stages.
-/

namespace CommandChain

/-- What a push into a row of stages leaves: its result unless it panicked, the stages and the
chain. -/
structure Pushed (n : Nat) where
  outcome : Except Panic CallResult
  stages : Stages n
  chain : Chain

/-- A way to push a record into a row of `n` stages. -/
abbrev Push (n : Nat) := Stages n → Chain → Record → Pushed n

/-- What serving a hook leaves: its result unless it panicked, the memory of the command, the
stages behind it and the chain. -/
structure Served (σ : Type) (n : Nat) where
  outcome : Except Panic CallResult
  memory : σ
  rest : Stages n
  chain : Chain

/-- What a lifecycle call of a stage leaves. -/
structure Settled (n : Nat) where
  outcome : Except Panic CallResult
  stage : Stage
  rest : Stages n
  chain : Chain

/-- Whether the chain is halting for a call: the chain is halted, the command is cut off, or its
current call is going to end with an error. -/
def Call.isStopping (call : Call) (chain : Chain) : Bool :=
  chain.isHalted || chain.isCut call.position || chain.hasPendingStop call.id

/-- Writes an object to the stages behind a command. -/
def Call.writeObject {n : Nat} (call : Call) (push : Push n) (v : Value) (rest : Stages n)
    (chain : Chain) : Pushed n :=
  if call.isStopping chain then ⟨.ok .stopped, rest, chain⟩
  else if call.phase == .begin then ⟨.ok (.terminating writeInBegin), rest, chain⟩
  else
    let (r, chain) := chain.emit (.object v) call.source
    push rest chain r

/-- The message as it is emitted: an error is given the phase of the call and, where it has no
target, the current object. -/
def Call.complete (call : Call) : Message → Message
  | .error e => .error { e with target := e.target.or call.input, phase := some call.phase }
  | m => m

/-- Writes a message to the host. A preference to stop lets the record through and then ends the
call. -/
def Call.report (call : Call) (m : Message) (chain : Chain) : CallResult × Chain :=
  let m := call.complete m
  let (r, chain) := chain.emit (.message m) call.source
  let chain := if call.preferences.delivers m.kind then chain.deliverToHost r else chain
  if call.preferences.forKind m.kind == .stop then
    let e := preferenceStop m.kind
    (.terminating e, chain.escalateAfterCall call.id e)
  else (.ok, chain)

/-- Answers the requests of a hook until it returns or unwinds. -/
def serve {σ : Type} {n : Nat} (call : Call) (push : Push n) :
    Hook σ → σ → Stages n → Chain → Served σ n
  | .done result, memory, rest, chain => ⟨.ok result, memory, rest, chain⟩
  | .panic p, memory, rest, chain => ⟨.error p, memory, rest, chain⟩
  | .store memory next, _, rest, chain => serve call push next memory rest chain
  | .write v next, memory, rest, chain =>
    let pushed := call.writeObject push v rest (chain.log (.writing call.id v))
    match pushed.outcome with
    | .error p => ⟨.error p, memory, pushed.stages, pushed.chain⟩
    | .ok result =>
      serve call push (next result) memory pushed.stages
        (pushed.chain.log (.wrote call.id result))
  | .report m next, memory, rest, chain =>
    let (result, chain) := call.report m (chain.log (.reporting call.id m))
    serve call push (next result) memory rest chain
  | .cutInput next, memory, rest, chain =>
    serve call push next memory rest (chain.cutInput call.id call.position)
  | .askStopping next, memory, rest, chain =>
    serve call push (next (call.isStopping chain)) memory rest chain
  | .note text next, memory, rest, chain =>
    serve call push next memory rest (chain.note text)
  | .signal token next, memory, rest, chain =>
    serve call push next memory rest (chain.signal token)
  | .askSignaled token next, memory, rest, chain =>
    serve call push (next (chain.flags.isSignaled token)) memory rest chain
  | .runChain run next, memory, rest, chain =>
    let report := run chain.flags
    let chain := chain.absorb report
    match report.outcome with
    | .error p => ⟨.error p, memory, rest, chain⟩
    | .ok outcome => serve call push (next outcome) memory rest chain

/-- Settles the result of a lifecycle call: a pending stop takes its place, and a fault is
reported. A terminating fault, or any fault of a command whose preference for errors is to stop,
halts the chain. -/
def settle (stage : Stage) (chain : Chain) (phase : Phase) (input : Option Value)
    (result : CallResult) : CallResult × Stage × Chain :=
  match chain.takePendingStop stage.id with
  | (some e, chain) =>
    let (stage, chain) := stage.fail chain { e with phase := some phase }
    (.stopped, stage, chain)
  | (none, chain) =>
    match result with
    | .ok => (.ok, stage, chain)
    | .stopped => (.stopped, stage, chain)
    | .fault f =>
      let e := { f.error with phase := some phase, target := f.error.target.or input }
      if f.terminating || stage.preferences.errorAction == .stop then
        let (stage, chain) := stage.fail chain e
        (.stopped, stage, chain)
      else (.ok, stage, chain.emitError stage.source e)

/-- Once a pending stop was taken, the command fails, or the call is settled with its own result, or
its fault is reported. -/
theorem settle_cases {motive : CallResult × Stage × Chain → Prop} (stage : Stage) (chain : Chain)
    (phase : Phase) (input : Option Value) (result : CallResult)
    (failed : ∀ e, motive (.stopped, stage.fail (chain.takePendingStop stage.id).2 e))
    (passed : motive (.ok, stage, (chain.takePendingStop stage.id).2))
    (stopped : motive (.stopped, stage, (chain.takePendingStop stage.id).2))
    (reported : ∀ e, motive
      (.ok, stage, (chain.takePendingStop stage.id).2.emitError stage.source e)) :
    motive (settle stage chain phase input result) := by
  unfold settle
  generalize chain.takePendingStop stage.id = taken at failed passed stopped reported ⊢
  obtain ⟨pending, chain⟩ := taken
  cases pending with
  | some e => exact failed _
  | none =>
    cases result with
    | ok => exact passed
    | stopped => exact stopped
    | fault f =>
      simp only
      split
      · exact failed _
      · exact reported _

/-- Where nothing is pending, a call that completed is settled with nothing more. -/
theorem settle_ok (stage : Stage) {chain : Chain} (h : chain.pendingStop = none) (phase : Phase)
    (input : Option Value) : settle stage chain phase input .ok = (.ok, stage, chain) := by
  unfold settle
  rw [Chain.takePendingStop_of_none h]

/-- Where nothing is pending, a call that stopped is settled with nothing more. -/
theorem settle_stopped (stage : Stage) {chain : Chain} (h : chain.pendingStop = none)
    (phase : Phase) (input : Option Value) :
    settle stage chain phase input .stopped = (.stopped, stage, chain) := by
  unfold settle
  rw [Chain.takePendingStop_of_none h]

/-- Where nothing is pending, a fault that does not stop the chain is reported. -/
theorem settle_fault (stage : Stage) {chain : Chain} (h : chain.pendingStop = none) (phase : Phase)
    (input : Option Value) {f : CommandFault} (hgoes : f.terminating = false)
    (haction : stage.preferences.errorAction ≠ .stop) :
    settle stage chain phase input (.fault f) = (.ok, stage, chain.emitError stage.source
      { f.error with phase := some phase, target := f.error.target.or input }) := by
  have herror : (stage.preferences.errorAction == .stop) = false := beq_eq_false_iff_ne.mpr haction
  unfold settle
  rw [Chain.takePendingStop_of_none h]
  simp only [hgoes, herror, Bool.or_self, Bool.false_eq_true, if_false]

/-- The state a command enters when a lifecycle call begins. -/
def CommandState.entering (state : CommandState) : Phase → Except LifecycleError CommandState
  | .begin => state.become .began
  | .process => state.become .processing
  | _ => .ok state

/-- Runs one lifecycle call of a stage and settles its result. -/
def invoke {n : Nat} (push : Push n) (stage : Stage) (rest : Stages n) (chain : Chain)
    (phase : Phase) (bound : Option BoundParameters) (input : Option Value) : Settled n :=
  match stage.state.entering phase with
  | .error e =>
    let (stage, chain) := stage.fail chain e.fault.error
    ⟨.ok .stopped, stage, rest, chain⟩
  | .ok state =>
    let stage := { stage with state := state }
    let parameters := bound.getD stage.bound
    let call := stage.call chain phase parameters input
    let chain := chain.log (.called stage.id phase parameters input)
    let served := serve call push (stage.command.hook call stage.memory) stage.memory rest chain
    let stage := { stage with memory := served.memory }
    match served.outcome with
    | .error p => ⟨.error p, stage, served.rest, served.chain⟩
    | .ok result =>
      let chain := served.chain.log (.returned stage.id phase result)
      let (result, stage, chain) := settle stage chain phase input result
      ⟨.ok result, stage, served.rest, chain.log (.settled stage.id phase result.isOk)⟩

/-- Has a stage process a record it read. An object that cannot be bound is reported and skipped,
or halts the chain. -/
def processRecord {n : Nat} (push : Push n) (stage : Stage) (rest : Stages n) (chain : Chain)
    (r : Record) : Settled n :=
  match r.object? with
  | none => ⟨.ok .ok, stage, rest, chain⟩
  | some v =>
    if !stage.state.isRunning then ⟨.ok .ok, stage, rest, chain⟩
    else match (stage.binder chain.adapter).bindObject stage.bound v with
      | .ok bound => invoke push stage rest chain .process (some bound) (some v)
      | .error e =>
        let e := { e.toRecord with target := some v, phase := some .process }
        match stage.bindingErrors with
        | .nonTerminating => ⟨.ok .ok, stage, rest, chain.emitError stage.source e⟩
        | .terminating =>
          let (stage, chain) := stage.fail chain e
          ⟨.ok .stopped, stage, rest, chain⟩

/-- Pushes a record into a row of stages. The record goes through the pipe of the nearest one. -/
def deliver : (n : Nat) → Push n
  | 0, .nil, chain, r => ⟨.ok .ok, .nil, chain.deliverToHost r⟩
  | n + 1, .cons stage rest, chain, r =>
    if chain.isHalted then ⟨.ok .stopped, .cons stage rest, chain⟩
    else match stage.input.write chain.isHalted r with
      | .error .stopped => ⟨.ok .stopped, .cons stage rest, chain⟩
      | .error refusal => ⟨.ok (.fault refusal.fault), .cons stage rest, chain⟩
      | .ok pipe =>
        match pipe.take chain.isHalted with
        | (.record r, pipe) =>
          let settled := processRecord (deliver n) { stage with input := pipe } rest chain r
          ⟨settled.outcome, .cons settled.stage settled.rest, settled.chain⟩
        | (_, pipe) => ⟨.ok .ok, .cons { stage with input := pipe } rest, chain⟩

end CommandChain
