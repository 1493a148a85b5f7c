import CommandChain.Chain.Pipeline
/-!
# Reading a journal

A journal tells on its own whether the chain is halting, which commands are cut off and in which
state every command is. Each operation on the shared state of a chain is described by the steps that
it adds.
-/

namespace CommandChain

/-- What is fixed before a chain runs. -/
structure Setting : Type 1 where
  commands : List Command
  /-- Whether the host supplies objects. -/
  hostInput : Bool
  /-- The chain's own token. -/
  stop : StopToken
  /-- The flags when the chain was built. -/
  flags : StopFlags
  /-- The stages of the commands as they were built. -/
  stages : List Stage
  adapter : Adapter

/-- Whether a command is to process once, in the wave that ends the chain: it takes no input, and it
is not a first command that processes in place of being fed. -/
def Setting.processesOnce (set : Setting) (id : CommandId) : Bool :=
  (set.commands[id.number]?).any (fun command => !command.parameters.any Parameter.acceptsInput)
    && (id.number != 0 || set.hostInput)

namespace Event

/-- Whether a step raises a flag that a token listens to. -/
def raises (stop : StopToken) : Event → Bool
  | signaled token => stop.lineage.contains token.flag
  | _ => false

/-- Whether a step cuts off the command at a position. -/
def cutsOff (position : Nat) : Event → Bool
  | cut id => position < id.number
  | _ => false

/-- Whether a step is a cut. -/
def isCut : Event → Bool
  | cut _ => true
  | _ => false

/-- Whether a step is a terminating fault. -/
def isFailed : Event → Bool
  | failed _ => true
  | _ => false

/-- Whether a step tells a command to stop or disposes of it. -/
def isParting : Event → Bool
  | stopping _ | disposing _ => true
  | _ => false

/-- Whether a step changes nothing that a journal is read for: it is no signal, no cut and no
terminating fault. -/
def isPlain : Event → Bool
  | signaled _ | cut _ | failed _ => false
  | _ => true

/-- Whether a step belongs to a lifecycle call of a command. -/
def isOf (id : CommandId) (phase : Phase) : Event → Bool
  | called i p _ _ | returned i p _ | settled i p _ => i == id && p == phase
  | _ => false

end Event

/-- The state of a command after one more step of the engine. -/
def CommandState.after (id : CommandId) (state : CommandState) : Event → CommandState
  | .called i .begin _ _ => if i = id then state.becomeIfAllowed .began else state
  | .called i .process _ _ => if i = id then state.becomeIfAllowed .processing else state
  | .settled i .finish true => if i = id then state.becomeIfAllowed .ended else state
  | .failed i => if i = id then state.becomeIfAllowed .error else state
  | _ => state

/-- Whether the chain is halting after the steps of a journal. -/
def Setting.isHalted (set : Setting) (journal : List Event) : Bool :=
  set.flags.isSignaled set.stop || journal.any (Event.raises set.stop)

namespace Journal

/-- Whether the command at a position is cut off after the steps of a journal. -/
def isCut (journal : List Event) (position : Nat) : Bool :=
  journal.any (Event.cutsOff position)

/-- The state of a command after the steps of a journal. -/
def state (journal : List Event) (id : CommandId) : CommandState :=
  journal.foldl (CommandState.after id) .created

/-- A command was called to begin. -/
def HasBegun (journal : List Event) (id : CommandId) : Prop :=
  ∃ parameters input, .called id .begin parameters input ∈ journal

/-- No lifecycle call of a command for a phase has taken place. -/
def Clear (journal : List Event) (id : CommandId) (phase : Phase) : Prop :=
  ∀ e ∈ journal, e.isOf id phase = false

variable (journal block : List Event)

@[simp] theorem isCut_append (position : Nat) :
    isCut (journal ++ block) position = (isCut journal position || isCut block position) := by
  simp [isCut]

/-- The state of a command after a block of steps follows from the state before, step by step. -/
theorem state_append (id : CommandId) :
    state (journal ++ block) id = block.foldl (CommandState.after id) (state journal id) := by
  simp [state]

theorem clear_append (id : CommandId) (phase : Phase) :
    Clear (journal ++ block) id phase ↔ Clear journal id phase ∧ Clear block id phase := by
  simp only [Clear, List.mem_append]
  exact ⟨fun h => ⟨fun e he => h e (.inl he), fun e he => h e (.inr he)⟩,
    fun h e he => he.elim (h.1 e) (h.2 e)⟩

end Journal

/-- A chain is halting after a block exactly if it was before, or a step of the block raises its
flag. -/
@[simp] theorem Setting.isHalted_append (set : Setting) (journal block : List Event) :
    set.isHalted (journal ++ block)
      = (set.isHalted journal || block.any (Event.raises set.stop)) := by
  simp [isHalted, Bool.or_assoc]

/-- A halted chain stays halted. -/
theorem Setting.isHalted_of_prefix (set : Setting) {journal block : List Event}
    (h : set.isHalted journal = true) : set.isHalted (journal ++ block) = true := by
  rw [isHalted_append, h, Bool.true_or]

/-- A command that is cut off stays cut off. -/
theorem Journal.isCut_of_prefix {journal block : List Event} {position : Nat}
    (h : isCut journal position = true) : isCut (journal ++ block) position = true := by
  rw [isCut_append, h, Bool.true_or]

/-- A signal is seen by the tokens that listen to its flag. -/
theorem StopFlags.isSignaled_signal (flags : StopFlags) (token stop : StopToken) :
    (flags.signal token).isSignaled stop
      = (flags.isSignaled stop || stop.lineage.contains token.flag) := by
  unfold isSignaled signal
  induction stop.lineage with
  | nil => rfl
  | cons flag lineage ih =>
    simp only [List.any_cons, List.contains_cons] at ih ⊢
    rw [ih, Bool.beq_comm (a := flag)]
    cases token.flag == flag <;> cases flags.raised.contains flag <;> simp

/-! ## The steps that an operation adds -/

namespace Chain

variable (chain : Chain)

@[simp] theorem journal_signal (token : StopToken) :
    (chain.signal token).journal = chain.journal ++ [.signaled token] := by
  simp [signal, journal, log]

@[simp] theorem journal_signalAll (tokens : List StopToken) :
    (chain.signalAll tokens).journal = chain.journal ++ tokens.map .signaled := by
  induction tokens generalizing chain with
  | nil => simp [signalAll]
  | cons token tokens ih =>
    rw [signalAll, List.foldl_cons, ← signalAll, ih, journal_signal]
    simp

@[simp] theorem journal_cutInput (id : CommandId) (position : Nat) :
    (chain.cutInput id position).journal = chain.journal ++ [.cut id] := by
  simp [cutInput, journal, log]

@[simp] theorem journal_note (text : String) : (chain.note text).journal = chain.journal := rfl

@[simp] theorem journal_noteAll (texts : List String) :
    (chain.noteAll texts).journal = chain.journal := by
  induction texts generalizing chain with
  | nil => rfl
  | cons text texts ih => rw [noteAll, List.foldl_cons, ← noteAll, ih, journal_note]

@[simp] theorem journal_emit (payload : Payload) (source : RecordSource) :
    (chain.emit payload source).2.journal
      = chain.journal ++ [.emitted (chain.emit payload source).1] :=
  journal_log _ _

@[simp] theorem journal_deliverToHost (r : Record) :
    (chain.deliverToHost r).journal = chain.journal ++ [.delivered r] :=
  journal_log _ _

@[simp] theorem journal_escalateAfterCall (id : CommandId) (e : ErrorRecord) :
    (chain.escalateAfterCall id e).journal = chain.journal := rfl

/-- The record of an error. -/
def errorRecord (source : RecordSource) (e : ErrorRecord) : Record :=
  (chain.emit (.message (.error e)) source).1

@[simp] theorem error?_errorRecord (source : RecordSource) (e : ErrorRecord) :
    (chain.errorRecord source e).error? = some e := rfl

@[simp] theorem journal_emitError (source : RecordSource) (e : ErrorRecord) :
    (chain.emitError source e).journal
      = chain.journal ++ [.emitted (chain.errorRecord source e),
          .delivered (chain.errorRecord source e)] := by
  rw [emitError, journal_deliverToHost, journal_emit, List.append_assoc]
  rfl

@[simp] theorem journal_absorb (report : ChainReport) :
    (chain.absorb report).journal = chain.journal ++ report.signals.map .signaled := by
  rw [absorb, journal_signalAll, journal_noteAll]

/-- Signals leave what is pending. -/
theorem pendingStop_signalAll (tokens : List StopToken) :
    (chain.signalAll tokens).pendingStop = chain.pendingStop := by
  induction tokens generalizing chain with
  | nil => rfl
  | cons token tokens ih => exact ih (chain.signal token)

/-- A chain that a command ran leaves the error pending that was. -/
theorem pendingStop_absorb (report : ChainReport) :
    (chain.absorb report).pendingStop = chain.pendingStop := by
  have hnotes (texts : List String) (chain : Chain) :
      (chain.noteAll texts).pendingStop = chain.pendingStop := by
    induction texts generalizing chain with
    | nil => rfl
    | cons text texts ih => exact ih (chain.note text)
  exact (pendingStop_signalAll _ _).trans (hnotes _ _)

/-- What taking a pending stop comes to. -/
theorem takePendingStop_eq (id : CommandId) :
    chain.takePendingStop id = ((chain.pendingStop.filter (·.1 == id)).map Prod.snd,
      { chain with
        pendingStop := if chain.pendingStop.any (·.1 == id) then none else chain.pendingStop }) := by
  obtain ⟨sequencer, delivered, live, stop, fault, inputCut, pendingStop, adapter, scripts, flags,
    shown, history⟩ := chain
  unfold takePendingStop
  cases pendingStop with
  | none => rfl
  | some pending =>
    by_cases howner : (pending.1 == id) = true
    · simp [howner, Option.filter]
    · simp [howner, Option.filter]

@[simp] theorem journal_takePendingStop (id : CommandId) :
    (chain.takePendingStop id).2.journal = chain.journal := by
  unfold takePendingStop
  split
  · split <;> rfl
  · rfl

end Chain

/-- The channel of a message stays when the message is completed. -/
theorem Call.kind_complete (call : Call) (m : Message) : (call.complete m).kind = m.kind := by
  cases m <;> rfl

/-- The record of a message. -/
def Call.record (call : Call) (m : Message) (chain : Chain) : Record :=
  (chain.emit (.message (call.complete m)) call.source).1

/-- The steps of writing a message. -/
theorem Chain.journal_report (chain : Chain) (call : Call) (m : Message) :
    (call.report m (chain.log (.reporting call.id m))).2.journal
      = chain.journal ++ (.reporting call.id m :: .emitted (call.record m chain)
        :: if call.preferences.delivers m.kind then [.delivered (call.record m chain)] else []) := by
  have hemit := (chain.log (.reporting call.id m)).journal_emit (.message (call.complete m))
    call.source
  rw [journal_log, List.append_assoc] at hemit
  unfold Call.report
  simp only [call.kind_complete]
  split <;> split
  · next hstop hdelivers =>
    rw [journal_escalateAfterCall, journal_deliverToHost, hemit, List.append_assoc]
    rfl
  · next hstop hdelivers =>
    rw [journal_escalateAfterCall, hemit]
    rfl
  · next hstop hdelivers =>
    rw [journal_deliverToHost, hemit, List.append_assoc]
    rfl
  · next hstop hdelivers =>
    rw [hemit]
    rfl

/-- The steps of a terminating fault. -/
theorem Stage.journal_fail (stage : Stage) (chain : Chain) (e : ErrorRecord) :
    (stage.fail chain e).2.journal
      = chain.journal ++ [.emitted (chain.errorRecord stage.source { e with terminating := true }),
          .delivered (chain.errorRecord stage.source { e with terminating := true }),
          .failed stage.id, .signaled chain.stop] := by
  have h := chain.journal_emitError stage.source { e with terminating := true }
  unfold fail
  rw [Chain.journal_signal]
  change (Chain.log _ _).journal ++ _ = _
  rw [Chain.journal_log, h]
  simp only [List.append_assoc, List.cons_append, List.nil_append]
  rfl

/-- A chain that fails halts. -/
theorem Stage.isHalted_fail (stage : Stage) (chain : Chain) (e : ErrorRecord) :
    (stage.fail chain e).2.isHalted = true := by
  show (StopFlags.signal _ chain.stop).isSignaled chain.stop = true
  rw [StopFlags.isSignaled_signal]
  simp [StopToken.lineage]

end CommandChain
