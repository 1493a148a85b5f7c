import CommandChain.Chain.State
import CommandChain.Disposal
/-!
# Stages

A stage is a command at its place in a chain, together with its memory, its state and the pipe it
reads from. `Stages n` is a row of `n` stages, the nearest first: what stands behind a command in
its chain. A command can only reach the stages behind it, and their number is known from the type.
-/

namespace CommandChain

/-- A command at its place in a chain. -/
structure Stage : Type 1 where
  position : Nat
  command : Command
  memory : command.Memory
  arguments : List Argument
  state : CommandState
  /-- The parameters bound before the command begins. -/
  bound : BoundParameters
  preferences : Preferences
  bindingErrors : BindingErrorAction
  input : Pipe

namespace Stage

/-- The identity of the command within its chain. -/
def id (stage : Stage) : CommandId :=
  ⟨stage.position⟩

/-- The source of the records of the command. -/
def source (stage : Stage) : RecordSource :=
  ⟨stage.id, stage.command.name⟩

/-- Whether the command takes values from arriving objects. -/
def acceptsInput (stage : Stage) : Bool :=
  stage.command.parameters.any Parameter.acceptsInput

/-- The binder of the command's parameters. -/
def binder (stage : Stage) (adapter : Adapter) : Binder :=
  ⟨stage.command.parameters, adapter⟩

/-- Binds the arguments and overlays the preferences. -/
def bindStatically (stage : Stage) (adapter : Adapter) (expectsInput : Bool) :
    Except BindingError Stage :=
  match (stage.binder adapter).bindArguments stage.arguments expectsInput with
  | .error e => .error e
  | .ok bound =>
    match stage.preferences.overlay bound with
    | .error e => .error e
    | .ok preferences => .ok { stage with bound := bound, preferences := preferences }

/-- Binding a stage changes what its command is bound to, and nothing else. -/
theorem bindStatically_eq {stage bound : Stage} {adapter : Adapter} {expectsInput : Bool}
    (h : stage.bindStatically adapter expectsInput = .ok bound) :
    bound = { stage with bound := bound.bound, preferences := bound.preferences } := by
  unfold bindStatically at h
  split at h
  · cases h
  · split at h
    · cases h
    · cases h
      rfl

/-- What the command sees of a lifecycle call. -/
def call (stage : Stage) (chain : Chain) (phase : Phase) (parameters : BoundParameters)
    (input : Option Value) : Call where
  id := stage.id
  position := stage.position
  name := stage.command.name
  phase := phase
  parameters := parameters
  input := input
  preferences := stage.preferences
  adapter := chain.adapter
  scripts := chain.scripts

/-- Records a terminating fault of the command and halts the chain. The first fault of a chain is
the one that it reports; the state of a command that has not begun stays as it is. -/
def fail (stage : Stage) (chain : Chain) (e : ErrorRecord) : Stage × Chain :=
  let e := { e with terminating := true }
  let chain := (chain.emitError stage.source e).log (.failed stage.id)
  let chain := { chain with fault := some (chain.fault.getD e) }
  ({ stage with state := stage.state.becomeIfAllowed .error }, chain.signal chain.stop)

/-- Tells the command to stop. Whether that panicked, the stage and the chain. -/
def callStop (stage : Stage) (chain : Chain) : Except Panic Unit × Stage × Chain :=
  let parting := stage.command.stop chain.flags stage.memory
  let chain := ((chain.log (.stopping stage.id)).noteAll parting.notes).signalAll parting.signals
  (parting.result, { stage with memory := parting.memory }, chain)

/-- Has the command release what it holds. -/
def callDispose (stage : Stage) (chain : Chain) :
    Except Panic (Option CommandFault) × Stage × Chain :=
  let parting := stage.command.dispose chain.flags stage.memory
  let chain := ((chain.log (.disposing stage.id)).noteAll parting.notes).signalAll parting.signals
  (parting.result, { stage with memory := parting.memory }, chain)

/-- Releases the command: one that is still running is told to stop first. -/
def release (stage : Stage) (chain : Chain) : ReleaseOutcome × Stage × Chain :=
  if stage.state.isRunning then
    match stage.callStop chain with
    | (.error p, stage, chain) => (.panicked p, stage, chain)
    | (.ok (), stage, chain) => disposeOf { stage with state := .stopped } chain
  else disposeOf stage chain
where
  /-- Has a command that is not running release what it holds. -/
  disposeOf (stage : Stage) (chain : Chain) : ReleaseOutcome × Stage × Chain :=
    match stage.callDispose chain with
    | (.error p, stage, chain) => (.panicked p, stage, chain)
    | (.ok fault, stage, chain) =>
      match stage.state.become .disposed with
      | .error e => (.faulted e.fault.error, stage, chain)
      | .ok state =>
        let stage := { stage with state := state }
        match fault with
        | some f => (.faulted f.error, stage, chain)
        | none => (.released, stage, chain)

/-- Having a command release what it holds leaves the chain as its dispose hook does, and the
command too, but that it may be disposed of. -/
theorem disposeOf_called (stage : Stage) (chain : Chain) :
    (release.disposeOf stage chain).2.2 = (stage.callDispose chain).2.2
      ∧ ∃ state, (state = stage.state ∨ state = .disposed)
        ∧ (release.disposeOf stage chain).2.1
          = { (stage.callDispose chain).2.1 with state := state } := by
  have hstate : (stage.callDispose chain).2.1.state = stage.state := rfl
  unfold release.disposeOf
  generalize stage.callDispose chain = called at hstate ⊢
  obtain ⟨result, called, chain'⟩ := called
  cases result with
  | error p => exact ⟨rfl, called.state, .inl hstate, rfl⟩
  | ok fault =>
    simp only
    cases hbecome : called.state.become .disposed with
    | error e => exact ⟨rfl, called.state, .inl hstate, rfl⟩
    | ok state =>
      have hdisposed : state = .disposed := by
        unfold CommandState.become at hbecome
        split at hbecome
        · exact (Except.ok.inj hbecome).symm
        · cases hbecome
      cases fault <;> exact ⟨rfl, state, .inr hdisposed, rfl⟩

/-- How stages are released. -/
def releasable : Releasable Stage Chain where
  id := id
  isReleased stage := stage.state.isDisposed
  release := release

end Stage

/-- A row of stages, the nearest first. -/
inductive Stages : Nat → Type 1 where
  | nil : Stages 0
  | cons {n : Nat} (stage : Stage) (rest : Stages n) : Stages (n + 1)

namespace Stages

/-- The stages of a row as a list. -/
def toList : {n : Nat} → Stages n → List Stage
  | _, nil => []
  | _, cons stage rest => stage :: rest.toList

def ofList : (stages : List Stage) → Stages stages.length
  | [] => nil
  | stage :: rest => cons stage (ofList rest)

/-- Closes the pipe of the nearest stage. -/
def closeFirst : {n : Nat} → Stages n → Stages n
  | _, nil => nil
  | _, cons stage rest => cons { stage with input := stage.input.close } rest

theorem length_toList {n : Nat} (stages : Stages n) : stages.toList.length = n := by
  induction stages with
  | nil => rfl
  | cons stage rest ih => simp [toList, ih]

/-- A list of stages is the list of its row. -/
theorem toList_ofList (stages : List Stage) : (ofList stages).toList = stages := by
  induction stages with
  | nil => rfl
  | cons stage rest ih => simp [ofList, toList, ih]

end Stages

end CommandChain
