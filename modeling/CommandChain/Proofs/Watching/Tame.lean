import CommandChain.Proofs.Disposal.Release
import CommandChain.Proofs.Disposal.Replacement
import CommandChain.Record.Document
/-!
# Tame commands

A command is tame where its hooks never unwind and report only messages that have a document. A chain of
tame commands comes to its end, whatever it is fed and whatever is signaled, and every record that reaches
the host can be written out: objects and errors always have a document. What disposing of a command does is
caught, so nothing is asked of the dispose hooks.
-/

namespace CommandChain

/-! ## What can be written out -/

/-- What a record carries has a document. -/
def Payload.IsWritable (payload : Payload) : Prop :=
  payload.toJson?.isSome = true

/-- Every record that reached the host has a document. -/
def Chain.Writable (chain : Chain) : Prop :=
  ∀ r ∈ chain.delivered, r.payload.IsWritable

/-- An error has a document. -/
theorem Payload.isWritable_error (e : ErrorRecord) : (Payload.message (.error e)).IsWritable := rfl

/-- A hook that never unwinds, whatever it is answered: it runs only chains that come to their ends, and
reports only messages that have a document. -/
def Hook.Tame {σ : Type} : Hook σ → Prop
  | .done _ => True
  | .panic _ => False
  | .store _ next => next.Tame
  | .write _ next => ∀ result, (next result).Tame
  | .report m next => (Payload.message m).IsWritable ∧ ∀ result, (next result).Tame
  | .cutInput next => next.Tame
  | .askStopping next => ∀ answer, (next answer).Tame
  | .note _ next => next.Tame
  | .signal _ next => next.Tame
  | .askSignaled _ next => ∀ answer, (next answer).Tame
  | .runChain run next =>
    (∀ flags, ∃ outcome, (run flags).outcome = .ok outcome) ∧ ∀ outcome, (next outcome).Tame

/-- A command none of whose hooks unwinds, but perhaps for the one that disposes of it. -/
structure Command.Tame (c : Command) : Prop where
  hook : ∀ call memory, (c.hook call memory).Tame
  stop : ∀ flags memory, (c.stop flags memory).result = .ok ()

/-- The commands of a row are tame. -/
def Stages.Tame {n : Nat} (stages : Stages n) : Prop :=
  ∀ stage ∈ stages.toList, stage.command.Tame

/-- A push returned and left tame commands and records that can be written out. -/
structure Pushed.Sound {n : Nat} (pushed : Pushed n) : Prop where
  outcome : ∃ result, pushed.outcome = .ok result
  stages : pushed.stages.Tame
  chain : pushed.chain.Writable

/-- A hook returned and left tame commands and records that can be written out. -/
structure Served.Sound {σ : Type} {n : Nat} (served : Served σ n) : Prop where
  outcome : ∃ result, served.outcome = .ok result
  rest : served.rest.Tame
  chain : served.chain.Writable

/-- A call returned and left tame commands and records that can be written out. -/
structure Settled.Sound {n : Nat} (settled : Settled n) : Prop where
  outcome : ∃ result, settled.outcome = .ok result
  stage : settled.stage.command.Tame
  rest : settled.rest.Tame
  chain : settled.chain.Writable

/-- A step of a run came to its end and left tame commands and records that can be written out. -/
structure Ran.Sound {n : Nat} (ran : Ran n) : Prop where
  outcome : ran.outcome = .ok ()
  stages : ran.stages.Tame
  chain : ran.chain.Writable

/-- A push into tame commands returns. -/
def Push.Sound {n : Nat} (push : Push n) : Prop :=
  ∀ stages chain r, r.payload.IsWritable → stages.Tame → chain.Writable →
    (push stages chain r).Sound

variable {n : Nat} {chain : Chain}

/-- A row is tame exactly if its first command and the row behind it are. -/
theorem Stages.tame_cons {stage : Stage} {rest : Stages n} :
    (Stages.cons stage rest).Tame ↔ stage.command.Tame ∧ rest.Tame :=
  List.forall_mem_cons

/-! ## What reaches the host -/

namespace Chain.Writable

theorem log (h : chain.Writable) (e : Event) : (chain.log e).Writable := h

theorem emit (h : chain.Writable) (payload : Payload) (source : RecordSource) :
    (chain.emit payload source).2.Writable := h

theorem deliverToHost (h : chain.Writable) {r : Record} (hr : r.payload.IsWritable) :
    (chain.deliverToHost r).Writable :=
  List.forall_mem_cons.mpr ⟨hr, h⟩

/-- Reporting an error keeps the records of a chain fit to be written out. -/
theorem emitError (h : chain.Writable) (source : RecordSource) (e : ErrorRecord) :
    (chain.emitError source e).Writable :=
  (h.emit (.message (.error e)) source).deliverToHost (Payload.isWritable_error e)

/-- A command that fails leaves the records of its chain fit to be written out. -/
theorem fail (h : chain.Writable) (stage : Stage) (e : ErrorRecord) : (stage.fail chain e).2.Writable :=
  h.emitError stage.source { e with terminating := true }

theorem takePendingStop (h : chain.Writable) (id : CommandId) :
    (chain.takePendingStop id).2.Writable := by
  rw [Chain.takePendingStop_eq]
  exact h

end Chain.Writable

/-! ## Lifecycle calls -/

section

variable {push : Push n} (stage : Stage) {rest : Stages n}

end

theorem Stages.Tame.closeFirst {stages : Stages n} (h : stages.Tame) : stages.closeFirst.Tame := by
  cases stages with
  | nil => exact h
  | cons stage rest =>
    obtain ⟨hstage, hrest⟩ := Stages.tame_cons.mp h
    exact Stages.tame_cons.mpr ⟨hstage, hrest⟩

theorem Ran.Sound.closeFirst {fed : Ran n} (h : fed.Sound) : fed.closeFirst.Sound := by
  unfold Ran.closeFirst
  rw [h.outcome]
  exact ⟨rfl, h.stages.closeFirst, h.chain⟩

section

variable {push : Push n} (stage : Stage) {rest : Stages n}

end

end CommandChain
