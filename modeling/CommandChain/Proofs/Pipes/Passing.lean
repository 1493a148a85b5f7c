import CommandChain.Proofs.Pipes.Moments
/-!
# Records pass through pipes

A record that is written to a pipe is read from it before anything else happens. So while hooks are
served and objects are delivered all pipes of the chain rest, but for the short moment in which a record
goes through one of them, and the pipes behind a command that is called are ready for what it writes.
-/

namespace CommandChain

/-! ## One pipe -/

namespace Pipe

/-- Whatever was written to a pipe has been read, and no record waits. -/
structure Idle (pipe : Pipe) : Prop where
  slot : pipe.slot = none
  counted : pipe.written = pipe.read

/-- One record waits in a pipe, the one that was written last. -/
structure Holding (pipe : Pipe) : Prop where
  slot : pipe.slot.isSome = true
  counted : pipe.written = pipe.read + 1

/-- A pipe is idle and not closed. -/
structure Ready (pipe : Pipe) : Prop extends Idle pipe where
  opened : pipe.closed = false

/-- The pipe with a record written to it. -/
def given (pipe : Pipe) (r : Record) : Pipe :=
  { pipe with slot := some r, written := pipe.written + 1 }

/-- The pipe after a record has gone through it. -/
def passed (pipe : Pipe) : Pipe :=
  { pipe with slot := none, written := pipe.written + 1, read := pipe.read + 1 }

/-- A record that was written to an empty pipe is what the next read finds. -/
theorem take_given (pipe : Pipe) (stopped : Bool) (r : Record) :
    (pipe.given r).take stopped = (.record r, pipe.passed) := rfl

variable {pipe : Pipe}

theorem Idle.close (h : pipe.Idle) : pipe.close.Idle :=
  ⟨h.slot, h.counted⟩

/-- A read from an idle pipe finds no record, and leaves the pipe as it is. -/
theorem Idle.take_eq (h : pipe.Idle) (stopped : Bool) :
    pipe.take stopped = (if pipe.closed || stopped then .endOfInput else .empty, pipe) := by
  rw [take, h.slot]

theorem Idle.take_ne_record (h : pipe.Idle) (stopped : Bool) (r : Record) :
    (pipe.take stopped).1 ≠ .record r := by
  rw [h.take_eq]
  show (if pipe.closed || stopped then PipeRead.endOfInput else .empty) ≠ .record r
  split <;> simp

/-- A pipe that is ready accepts a record. -/
theorem Ready.write_eq (h : pipe.Ready) (r : Record) : pipe.write false r = .ok (pipe.given r) := by
  simp [write, given, h.opened, h.slot]

/-- A record written to a ready pipe waits in it. -/
theorem Ready.given (h : pipe.Ready) (r : Record) : (pipe.given r).Holding :=
  ⟨rfl, congrArg (· + 1) h.counted⟩

/-- A pipe is ready again once the record has gone through it. -/
theorem Ready.passed (h : pipe.Ready) : pipe.passed.Ready :=
  ⟨⟨rfl, congrArg (· + 1) h.counted⟩, h.opened⟩

end Pipe

/-! ## Rows of pipes -/

variable {n : Nat} {sources : List RecordSource}

/-- These are the stages of some commands, in order, and their pipes are in a certain condition. -/
structure Lined (p : Pipe → Prop) (sources : List RecordSource) (stages : List Stage) : Prop where
  sources : stages.map Stage.source = sources
  pipes : ∀ stage ∈ stages, p stage.input

namespace Lined

variable {p : Pipe → Prop} {stage : Stage} {stages : List Stage}

theorem cons {source : RecordSource} (hsource : stage.source = source) (hstage : p stage.input)
    (h : Lined p sources stages) : Lined p (source :: sources) (stage :: stages) := by
  refine ⟨?_, List.forall_mem_cons.mpr ⟨hstage, h.pipes⟩⟩
  rw [List.map_cons, hsource, h.sources]

/-- A row that is not empty starts with the stage of the first command. -/
theorem exists_of_cons (h : Lined p sources (stage :: stages)) :
    ∃ others, sources = stage.source :: others ∧ p stage.input ∧ Lined p others stages := by
  obtain ⟨hstage, hrest⟩ := List.forall_mem_cons.mp h.pipes
  exact ⟨stages.map Stage.source, h.sources.symm, hstage, rfl, hrest⟩

/-- Pipes that are ready are idle. -/
theorem idle (h : Lined Pipe.Ready sources stages) : Lined Pipe.Idle sources stages :=
  ⟨h.sources, fun stage hstage => (h.pipes stage hstage).toIdle⟩

end Lined

/-- The pipes of a row are ready. -/
abbrev Stages.Receptive (sources : List RecordSource) (stages : Stages n) : Prop :=
  Lined Pipe.Ready sources stages.toList

/-! ## Moments -/

/-- No pipe holds a record. -/
def Moment.Resting (m : Moment) : Prop :=
  ∀ stage ∈ m.stages, stage.input.Idle

/-- What holds of the pipes of a chain, depending on where control is. Pipes rest between calls and
inside hooks. A write to a pipe is accepted; the record is then the only one that waits anywhere. A
stage that is to end has no record left in its pipe. -/
def Moment.Orderly (m : Moment) : Prop :=
  match m.control with
  | .between | .inside _ => m.Resting
  | .writing stage r => m.Resting ∧ stage ∈ m.stages
    ∧ ∃ pipe, stage.input.write m.chain.isHalted r = .ok pipe
  | .passing stage => ∃ before after, m.stages = before ++ stage :: after ∧ stage.input.Holding
    ∧ ∀ other ∈ before ++ after, other.input.Idle
  | .draining stage => m.Resting ∧ stage ∈ m.stages
    ∧ ∀ r, (stage.input.take m.chain.isHalted).1 ≠ .record r

/-- A moment of a chain of these commands, at which its pipes are as they should be. -/
structure Moment.Safe (sources : List RecordSource) (m : Moment) : Prop where
  commands : m.stages.map Stage.source = sources
  orderly : m.Orderly

namespace Moment

/-- Between two calls, idle pipes are as they should be. -/
theorem safe_between {stages : List Stage} (h : Lined Pipe.Idle sources stages) (chain : Chain) :
    Safe sources ⟨.between, stages, chain⟩ :=
  ⟨h.sources, h.pipes⟩

/-- Inside a hook, idle pipes are as they should be. -/
theorem safe_inside {stages : List Stage} (h : Lined Pipe.Idle sources stages) (chain : Chain)
    (id : CommandId) : Safe sources ⟨.inside id, stages, chain⟩ :=
  ⟨h.sources, h.pipes⟩

/-- A safe moment of the stages behind an idle one is a safe moment of the row. -/
theorem Safe.behind {m : Moment} (h : m.Safe sources) {stage : Stage} {source : RecordSource}
    (hsource : stage.source = source) (hstage : stage.input.Idle) :
    (m.behind stage).Safe (source :: sources) := by
  obtain ⟨control, stages, chain⟩ := m
  obtain ⟨hcommands, horderly⟩ := h
  have hresting (h : Resting ⟨control, stages, chain⟩) :
      Resting ⟨control, stage :: stages, chain⟩ :=
    List.forall_mem_cons.mpr ⟨hstage, h⟩
  refine ⟨?_, ?_⟩
  · show (stage :: stages).map Stage.source = _
    rw [List.map_cons, hsource, hcommands]
  · cases control with
    | between => exact hresting horderly
    | inside command => exact hresting horderly
    | writing written r =>
      obtain ⟨hrests, hmem, haccepted⟩ := horderly
      exact ⟨hresting hrests, .tail _ hmem, haccepted⟩
    | passing holding =>
      obtain ⟨before, after, hstages, hholding, hothers⟩ := horderly
      refine ⟨stage :: before, after, congrArg (stage :: ·) hstages, hholding, ?_⟩
      exact List.forall_mem_cons.mpr ⟨hstage, hothers⟩
    | draining drained =>
      obtain ⟨hrests, hmem, hempty⟩ := horderly
      exact ⟨hresting hrests, .tail _ hmem, hempty⟩

/-- Safe moments behind a stage whose pipe rests are safe moments of the row. -/
theorem safe_behind {moments : List Moment} (h : ∀ m ∈ moments, m.Safe sources) {stage : Stage}
    {source : RecordSource} (hsource : stage.source = source) (hstage : stage.input.Idle) :
    ∀ m ∈ moments.map (·.behind stage), m.Safe (source :: sources) := by
  rw [List.forall_mem_map]
  intro m hm
  exact (h m hm).behind hsource hstage

end Moment

/-! ## Calls -/

/-- A push and its moments are safe: the record goes through pipes that are ready, and leaves them
ready. -/
structure Push.Safe (push : Push n) (passage : Passage n) : Prop where
  receptive : ∀ sources stages chain r, stages.Receptive sources →
    (push stages chain r).stages.Receptive sources
  moments : ∀ sources stages chain r, stages.Receptive sources →
    ∀ m ∈ passage stages chain r, m.Safe sources

variable {push : Push n} {passage : Passage n} {rest : Stages n} {stage : Stage}

/-- Writing an object leaves the pipes behind the command ready. -/
theorem Call.writeObject_receptive (call : Call) (hpush : push.Safe passage) (v : Value)
    (hrest : rest.Receptive sources) (chain : Chain) :
    (call.writeObject push v rest chain).stages.Receptive sources := by
  unfold writeObject
  split
  · exact hrest
  · split
    · exact hrest
    · exact hpush.receptive sources rest _ _ hrest

/-- All moments of writing an object are safe. -/
theorem Call.writeMoments_safe (call : Call) (hpush : push.Safe passage) (v : Value)
    (hrest : rest.Receptive sources) (chain : Chain) :
    ∀ m ∈ call.writeMoments passage v rest chain, m.Safe sources := by
  unfold writeMoments
  split
  · simp
  · split
    · simp
    · exact hpush.moments sources rest _ _ hrest

/-- While a hook is served the pipes behind its command are ready. -/
theorem serve_receptive {σ : Type} (call : Call) (hpush : push.Safe passage) (hook : Hook σ)
    (memory : σ) (hrest : rest.Receptive sources) (chain : Chain) :
    (serve call push hook memory rest chain).rest.Receptive sources := by
  induction hook generalizing memory rest chain with
  | done result => exact hrest
  | panic p => exact hrest
  | store memory' next ih => exact ih memory' hrest chain
  | write v next ih =>
    have hpushed := call.writeObject_receptive hpush v hrest (chain.log (.writing call.id v))
    unfold serve
    dsimp only
    generalize call.writeObject push v rest (chain.log (.writing call.id v)) = pushed at hpushed ⊢
    split
    · exact hpushed
    · exact ih _ memory hpushed _
  | report m next ih => exact ih _ memory hrest _
  | cutInput next ih => exact ih memory hrest _
  | askStopping next ih => exact ih _ memory hrest chain
  | note text next ih => exact ih memory hrest _
  | signal token next ih => exact ih memory hrest _
  | askSignaled token next ih => exact ih _ memory hrest chain
  | runChain run next ih =>
    unfold serve
    dsimp only
    split
    · exact hrest
    · exact ih _ memory hrest _

/-- At every moment of a hook all pipes rest, and the writes of the hook are safe. -/
theorem serveMoments_safe (stage : Stage) (call : Call) (hpush : push.Safe passage)
    (hook : Hook stage.command.Memory) (memory : stage.command.Memory) (hstage : stage.input.Idle)
    (hrest : rest.Receptive sources) (chain : Chain) :
    ∀ m ∈ serveMoments stage call push passage hook memory rest chain,
      m.Safe (stage.source :: sources) := by
  have hhere (memory : stage.command.Memory) {rest : Stages n} (hrest : rest.Receptive sources)
      (chain : Chain) : (stage.hookMoment memory rest chain).Safe (stage.source :: sources) := by
    have hlined : Lined Pipe.Idle (stage.source :: sources)
        ({ stage with memory := memory } :: rest.toList) := .cons rfl hstage hrest.idle
    exact Moment.safe_inside hlined chain stage.id
  -- The moments of a request are the one before it, those of its answer, and those that follow.
  induction hook generalizing memory rest chain with
  | done result => exact List.forall_mem_singleton.mpr (hhere memory hrest chain)
  | panic p => exact List.forall_mem_singleton.mpr (hhere memory hrest chain)
  | store memory' next ih =>
    exact List.forall_mem_cons.mpr ⟨hhere memory hrest chain, ih memory' hrest chain⟩
  | write v next ih =>
    have hwrites := call.writeMoments_safe hpush v hrest (chain.log (.writing call.id v))
    have hpushed := call.writeObject_receptive hpush v hrest (chain.log (.writing call.id v))
    unfold serveMoments
    refine List.forall_mem_cons.mpr ⟨hhere memory hrest chain, ?_⟩
    refine List.forall_mem_append.mpr ⟨Moment.safe_behind hwrites rfl hstage, ?_⟩
    split
    · simp
    · exact ih _ memory hpushed _
  | report m next ih =>
    exact List.forall_mem_cons.mpr ⟨hhere memory hrest chain, ih _ memory hrest _⟩
  | cutInput next ih =>
    exact List.forall_mem_cons.mpr ⟨hhere memory hrest chain, ih memory hrest _⟩
  | askStopping next ih =>
    exact List.forall_mem_cons.mpr ⟨hhere memory hrest chain, ih _ memory hrest chain⟩
  | note text next ih =>
    exact List.forall_mem_cons.mpr ⟨hhere memory hrest chain, ih memory hrest _⟩
  | signal token next ih =>
    exact List.forall_mem_cons.mpr ⟨hhere memory hrest chain, ih memory hrest _⟩
  | askSignaled token next ih =>
    exact List.forall_mem_cons.mpr ⟨hhere memory hrest chain, ih _ memory hrest chain⟩
  | runChain run next ih =>
    unfold serveMoments
    refine List.forall_mem_cons.mpr ⟨hhere memory hrest chain, ?_⟩
    split
    · simp
    · exact ih _ memory hrest _

/-- What a call of a stage leaves: its pipe as it was, and those behind it ready. -/
structure Settled.Leaves (stage : Stage) (sources : List RecordSource) (settled : Settled n) :
    Prop where
  source : settled.stage.source = stage.source
  input : settled.stage.input = stage.input
  receptive : settled.rest.Receptive sources

namespace Settled.Leaves

variable {settled : Settled n}

/-- A call leaves an idle pipe idle, and those behind it. -/
theorem idle (h : settled.Leaves stage sources) (hstage : stage.input.Idle) :
    Lined Pipe.Idle (stage.source :: sources) (settled.stage :: settled.rest.toList) :=
  .cons h.source (h.input ▸ hstage) h.receptive.idle

/-- A call leaves a ready pipe ready, and those behind it. -/
theorem ready (h : settled.Leaves stage sources) (hstage : stage.input.Ready) :
    (Stages.cons settled.stage settled.rest).Receptive (stage.source :: sources) :=
  .cons h.source (h.input ▸ hstage) h.receptive

end Settled.Leaves

/-- Settling a call leaves the pipe of its stage alone. -/
theorem settle_input (stage : Stage) (chain : Chain) (phase : Phase) (input : Option Value)
    (result : CallResult) :
    (settle stage chain phase input result).2.1.source = stage.source
      ∧ (settle stage chain phase input result).2.1.input = stage.input := by
  exact settle_cases
    (motive := fun out => out.2.1.source = stage.source ∧ out.2.1.input = stage.input)
    stage chain phase input result (fun _ => ⟨rfl, rfl⟩) ⟨rfl, rfl⟩ ⟨rfl, rfl⟩ fun _ => ⟨rfl, rfl⟩

/-- A lifecycle call leaves its own pipe as it was and those behind it ready. -/
theorem invoke_leaves (hpush : push.Safe passage) (hrest : rest.Receptive sources) (chain : Chain)
    (phase : Phase) (bound : Option BoundParameters) (input : Option Value) :
    (invoke push stage rest chain phase bound input).Leaves stage sources := by
  unfold invoke
  split
  · exact ⟨rfl, rfl, hrest⟩
  · next state _ =>
    have hserved := serve_receptive
      (Stage.call { stage with state := state } chain phase (bound.getD stage.bound) input) hpush
      (stage.command.hook
        (Stage.call { stage with state := state } chain phase (bound.getD stage.bound) input)
        stage.memory) stage.memory hrest
      (chain.log (.called stage.id phase (bound.getD stage.bound) input))
    dsimp only
    split
    · exact ⟨rfl, rfl, hserved⟩
    · obtain ⟨hsource, hinput⟩ := settle_input _ _ _ _ _
      exact ⟨hsource, hinput, hserved⟩

/-- All moments of a lifecycle call are safe. -/
theorem invokeMoments_safe (hpush : push.Safe passage) (hstage : stage.input.Idle)
    (hrest : rest.Receptive sources) (chain : Chain) (phase : Phase)
    (bound : Option BoundParameters) (input : Option Value) :
    ∀ m ∈ invokeMoments push passage stage rest chain phase bound input,
      m.Safe (stage.source :: sources) := by
  have hleaves : (invoke push stage rest chain phase bound input).Leaves stage sources :=
    invoke_leaves hpush hrest chain phase bound input
  refine List.forall_mem_append.mpr
    ⟨?_, List.forall_mem_singleton.mpr (Moment.safe_between (hleaves.idle hstage) _)⟩
  cases stage.state.entering phase with
  | error e => simp
  | ok state =>
    exact serveMoments_safe { stage with state := state } _ hpush _ _ hstage hrest _

/-- Processing a record leaves the pipe of the command as it was and those behind it ready. -/
theorem processRecord_leaves (hpush : push.Safe passage) (hrest : rest.Receptive sources)
    (chain : Chain) (r : Record) : (processRecord push stage rest chain r).Leaves stage sources := by
  unfold processRecord
  split
  · exact ⟨rfl, rfl, hrest⟩
  · split
    · exact ⟨rfl, rfl, hrest⟩
    · split
      · exact invoke_leaves hpush hrest chain _ _ _
      · dsimp only
        split <;> exact ⟨rfl, rfl, hrest⟩

/-- All moments of processing a record are safe. -/
theorem processMoments_safe (stage : Stage) (hpush : push.Safe passage) (hstage : stage.input.Idle)
    (hrest : rest.Receptive sources) (chain : Chain) (r : Record) :
    ∀ m ∈ processMoments push passage stage rest chain r, m.Safe (stage.source :: sources) := by
  unfold processMoments
  split
  · simp
  · split
    · simp
    · split
      · exact invokeMoments_safe hpush hstage hrest chain _ _ _
      · simp

/-! ## Deliveries -/

/-- Offered a record in a chain that is not halted, a stage whose pipe is ready processes it with its
pipe ready again. -/
theorem deliver_of_ready {chain : Chain} (hhalt : chain.isHalted = false)
    (hstage : stage.input.Ready) (rest : Stages n) (r : Record) :
    deliver (n + 1) (.cons stage rest) chain r
      = ⟨(processRecord (deliver n) { stage with input := stage.input.passed } rest chain r).outcome,
          .cons (processRecord (deliver n) { stage with input := stage.input.passed } rest chain
              r).stage
            (processRecord (deliver n) { stage with input := stage.input.passed } rest chain r).rest,
          (processRecord (deliver n) { stage with input := stage.input.passed } rest chain
            r).chain⟩ := by
  simp only [deliver, hhalt, Bool.false_eq_true, if_false, hstage.write_eq, Pipe.take_given]

/-- Deliveries are safe: the record that is written to the first pipe of a row is read from it before
the command of that pipe is called, and the pipes behind it are left ready by that call. -/
theorem deliver_safe (n : Nat) : (deliver n).Safe (deliverMoments n) := by
  induction n with
  | zero =>
    refine ⟨fun sources stages chain r h => ?_, fun sources stages chain r h => ?_⟩
    · cases stages
      exact h
    · cases stages
      exact List.forall_mem_singleton.mpr (Moment.safe_between h.idle _)
  | succ n ih =>
    have hreceptive (sources : List RecordSource) (stages : Stages (n + 1)) (chain : Chain)
        (r : Record) (h : stages.Receptive sources) :
        (deliver (n + 1) stages chain r).stages.Receptive sources := by
      cases stages with
      | cons stage rest =>
      obtain ⟨others, rfl, hstage, hrest⟩ := h.exists_of_cons
      by_cases hhalt : chain.isHalted = true
      · simp only [deliver, hhalt, if_true]
        exact h
      · rw [deliver_of_ready (Bool.not_eq_true _ ▸ hhalt) hstage]
        have hleaves : (processRecord (deliver n) { stage with input := stage.input.passed } rest chain
            r).Leaves { stage with input := stage.input.passed } others :=
          processRecord_leaves ih hrest chain r
        exact hleaves.ready hstage.passed
    refine ⟨hreceptive, fun sources stages chain r h => ?_⟩
    have hafter := (hreceptive sources stages chain r h).idle
    have hbefore := h.idle
    cases stages with
    | cons stage rest =>
    obtain ⟨others, rfl, hstage, hrest⟩ := h.exists_of_cons
    refine List.forall_mem_append.mpr
      ⟨?_, List.forall_mem_singleton.mpr (Moment.safe_between hafter _)⟩
    by_cases hhalt : chain.isHalted = true
    · simp [hhalt]
    · rw [Bool.not_eq_true] at hhalt
      simp only [hhalt, Bool.false_eq_true, if_false, hstage.write_eq, Pipe.take_given]
      -- The pipe was ready, so the write is accepted and its record read before anything else.
      refine List.forall_mem_cons.mpr ⟨⟨hbefore.sources, hbefore.pipes, .head _, ?_⟩, ?_⟩
      · show ∃ pipe, stage.input.write chain.isHalted r = .ok pipe
        rw [hhalt]
        exact ⟨_, hstage.write_eq r⟩
      · refine List.forall_mem_cons.mpr ⟨⟨hbefore.sources, ?_⟩, ?_⟩
        · exact ⟨[], rest.toList, rfl, hstage.given r, hrest.idle.pipes⟩
        · exact processMoments_safe { stage with input := stage.input.passed } ih
            hstage.passed.toIdle hrest chain r

end CommandChain
