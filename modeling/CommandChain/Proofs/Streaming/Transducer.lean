import CommandChain.Chain.Pipeline
import CommandChain.Proofs.Journal.Law
/-!
# Commands as transducers

A command that answers each object with some objects, and its end with some more, can be run over a
whole list at once. `Hook.yield` is what a call does where all that it writes is accepted, and
`Transducer.outputs` is what a command writes for a list of objects. `Hook.Streams` says of a call
that its command is such a transducer: it completes, it ends in peace where a write is refused, and
it declares that it needs no further input only where it would write nothing more.
-/

namespace CommandChain

/-- What a call leaves in the memory, what it writes, and what it returns. -/
structure Yield (σ : Type) where
  memory : σ
  written : List Value
  result : CallResult

namespace Hook

variable {σ : Type}

/-- What a hook does where all that it writes is accepted, no token is signaled by then, and all
input is fed. A panic ends it. -/
def yield (flags : StopFlags) : Hook σ → σ → Yield σ
  | done result, memory => ⟨memory, [], result⟩
  | store memory next, _ => next.yield flags memory
  | write v next, memory =>
    let rest := (next .ok).yield flags memory
    { rest with written := v :: rest.written }
  | report _ next, memory => (next .ok).yield flags memory
  | cutInput next, memory => next.yield flags memory
  | askStopping next, memory => (next false).yield flags memory
  | note _ next, memory => next.yield flags memory
  | signal _ next, memory => next.yield flags memory
  | askSignaled token next, memory => (next (flags.isSignaled token)).yield flags memory
  | panic _, memory => ⟨memory, [], .stopped⟩
  | runChain run next, memory =>
    match (run flags).outcome with
    | .ok outcome => (next outcome).yield flags memory
    | .error _ => ⟨memory, [], .stopped⟩

/-- A hook that signals no token and raises no terminating error, wherever each write is refused. -/
def Subsides (flags : StopFlags) (preferences : Preferences) : Hook σ → Prop
  | done result => result = .stopped ∨ result.completes = true
  | store _ next => next.Subsides flags preferences
  | write _ next => (next .stopped).Subsides flags preferences
  | report m next => preferences.forKind m.kind ≠ .stop ∧ (next .ok).Subsides flags preferences
  | cutInput next => next.Subsides flags preferences
  | askStopping next => (next true).Subsides flags preferences
  | note _ next => next.Subsides flags preferences
  | askSignaled token next => (next (flags.isSignaled token)).Subsides flags preferences
  | runChain run next => (run flags).signals = []
    ∧ ∃ outcome, (run flags).outcome = .ok outcome ∧ (next outcome).Subsides flags preferences
  | _ => False

/-- A hook that writes objects in order, signals no token and completes. Where a write is refused it
ends in peace, and it declares that no further input is needed only where it leaves a saturated
memory. -/
def Streams (flags : StopFlags) (preferences : Preferences) (saturated : σ → Prop) :
    Hook σ → σ → Prop
  | done result, _ => result.completes = true
  | store memory next, _ => next.Streams flags preferences saturated memory
  | write _ next, memory => (next .ok).Streams flags preferences saturated memory
    ∧ (next .stopped).Subsides flags preferences
  | report m next, memory => preferences.forKind m.kind ≠ .stop
    ∧ (next .ok).Streams flags preferences saturated memory
  | cutInput next, memory => saturated (next.yield flags memory).memory
    ∧ next.Streams flags preferences saturated memory
  | askStopping next, memory => (next false).Streams flags preferences saturated memory
    ∧ (next true).Subsides flags preferences
  | note _ next, memory => next.Streams flags preferences saturated memory
  | askSignaled token next, memory =>
    (next (flags.isSignaled token)).Streams flags preferences saturated memory
  | runChain run next, memory => (run flags).signals = [] ∧ ∃ outcome,
    (run flags).outcome = .ok outcome ∧ (next outcome).Streams flags preferences saturated memory
  | _, _ => False

/-- A hook that returns no fault where its writes are accepted or stopped. -/
def Faultless : Hook σ → Prop
  | done result => result = .ok ∨ result = .stopped
  | panic _ => True
  | store _ next => next.Faultless
  | write _ next => (next .ok).Faultless ∧ (next .stopped).Faultless
  | report _ next => (next .ok).Faultless
  | cutInput next => next.Faultless
  | askStopping next => ∀ stopping, (next stopping).Faultless
  | note _ next => next.Faultless
  | signal _ next => next.Faultless
  | askSignaled _ next => ∀ signaled, (next signaled).Faultless
  | runChain _ next => ∀ outcome, (next outcome).Faultless

/-- The hook of a call to begin, as it goes: there each write is refused. -/
def refuseWrites : Hook σ → Hook σ
  | done result => done result
  | panic p => panic p
  | store memory next => store memory next.refuseWrites
  | write _ next => (next (.terminating writeInBegin)).refuseWrites
  | report m next => report m fun result => (next result).refuseWrites
  | cutInput next => cutInput next.refuseWrites
  | askStopping next => askStopping fun stopping => (next stopping).refuseWrites
  | note text next => note text next.refuseWrites
  | signal token next => signal token next.refuseWrites
  | askSignaled token next => askSignaled token fun signaled => (next signaled).refuseWrites
  | runChain run next => runChain run fun outcome => (next outcome).refuseWrites

variable {flags : StopFlags} {preferences : Preferences} {saturated saturated' : σ → Prop}

/-- A chain that a hook runs yields what the hook makes of its outcome. -/
theorem yield_runChain {run : StopFlags → ChainReport} {outcome : Outcome}
    (h : (run flags).outcome = .ok outcome) (next : Outcome → Hook σ) (memory : σ) :
    (runChain run next).yield flags memory = (next outcome).yield flags memory := by
  rw [yield, h]

/-- A hook that streams to one saturation streams to any that is implied. -/
theorem Streams.mono (himp : ∀ memory, saturated memory → saturated' memory) {hook : Hook σ}
    {memory : σ} (h : hook.Streams flags preferences saturated memory) :
    hook.Streams flags preferences saturated' memory := by
  induction hook generalizing memory with
  | done result => exact h
  | store memory next ih => exact ih h
  | write v next ih => exact ⟨ih .ok h.1, h.2⟩
  | report m next ih => exact ⟨h.1, ih .ok h.2⟩
  | cutInput next ih => exact ⟨himp _ h.1, ih h.2⟩
  | askStopping next ih => exact ⟨ih false h.1, h.2⟩
  | note text next ih => exact ih h
  | askSignaled token next ih => exact ih _ h
  | runChain run next ih =>
    obtain ⟨hsignals, outcome, hout, hnext⟩ := h
    exact ⟨hsignals, outcome, hout, ih outcome hnext⟩
  | _ => exact h.elim

/-- What streams completes. -/
theorem Streams.completes {hook : Hook σ} {memory : σ}
    (h : hook.Streams flags preferences saturated memory) :
    (hook.yield flags memory).result.completes = true := by
  induction hook generalizing memory with
  | done result => exact h
  | store memory next ih => exact ih h
  | write v next ih => exact ih .ok h.1
  | report m next ih => exact ih .ok h.2
  | cutInput next ih => exact ih h.2
  | askStopping next ih => exact ih false h.1
  | note text next ih => exact ih h
  | askSignaled token next ih => exact ih _ h
  | runChain run next ih =>
    obtain ⟨-, outcome, hout, hnext⟩ := h
    rw [yield_runChain hout]
    exact ih outcome hnext
  | _ => exact h.elim

/-- What streams subsides, at whatever point its writes begin to be refused. -/
theorem Streams.subsides {hook : Hook σ} {memory : σ}
    (h : hook.Streams flags preferences saturated memory) : hook.Subsides flags preferences := by
  induction hook generalizing memory with
  | done result => exact .inr h
  | store memory next ih => exact ih h
  | write v next ih => exact h.2
  | report m next ih => exact ⟨h.1, ih .ok h.2⟩
  | cutInput next ih => exact ih h.2
  | askStopping next ih => exact h.2
  | note text next ih => exact ih h
  | askSignaled token next ih => exact ih _ h
  | runChain run next ih =>
    obtain ⟨hsignals, outcome, hout, hnext⟩ := h
    exact ⟨hsignals, outcome, hout, ih outcome hnext⟩
  | _ => exact h.elim

/-- Writing values yields those values, where none is refused. -/
theorem yield_writeAll (flags : StopFlags) (vs : List Value) (memory : σ) :
    (writeAll vs done).yield flags memory = ⟨memory, vs, .ok⟩ := by
  induction vs with
  | nil => rfl
  | cons v vs ih => rw [writeAll, yield, ih]

/-- Writing objects in order, and returning the last result, is no fault. -/
theorem faultless_writeAll (vs : List Value) : (writeAll vs done : Hook σ).Faultless := by
  induction vs with
  | nil => exact .inl rfl
  | cons v vs ih => exact ⟨ih, .inr rfl⟩

end Hook

/-- No object and no end makes the command return a fault. -/
def Command.Faultless (c : Command) : Prop :=
  ∀ call memory, (c.process call memory).Faultless ∧ (c.finish call memory).Faultless

/-- The hooks of a faultless command are faultless, but perhaps for that of its begin. -/
theorem Command.Faultless.hook {c : Command} (h : c.Faultless) {call : Call} {memory : c.Memory}
    (hphase : call.phase ≠ .begin) : (c.hook call memory).Faultless := by
  unfold Command.hook
  split
  · next hbegin => exact absurd hbegin hphase
  · exact (h call memory).1
  · exact (h call memory).2

/-- The calls of a command that takes objects, by what it remembers, and the flags that are raised
meanwhile. -/
structure Transducer (σ : Type) where
  flags : StopFlags
  process : σ → Value → Hook σ
  finish : σ → Hook σ

namespace Transducer

variable {σ : Type} (t : Transducer σ)

/-- The memory after an object. -/
def step (memory : σ) (v : Value) : σ :=
  ((t.process memory v).yield t.flags memory).memory

/-- What is written for a list of objects and at the end. -/
def outputs : σ → List Value → List Value
  | memory, [] => ((t.finish memory).yield t.flags memory).written
  | memory, v :: vs =>
    ((t.process memory v).yield t.flags memory).written ++ outputs (t.step memory v) vs

/-- Nothing more is written, whatever comes. -/
def Saturated (memory : σ) : Prop :=
  ∀ vs, t.outputs memory vs = []

/-- All calls stream, from a memory on. -/
def Streams (preferences : Preferences) (saturated : σ → Prop) (memory : σ) : Prop :=
  ∀ vs : List Value,
    (∀ v, (t.process (vs.foldl t.step memory) v).Streams t.flags preferences saturated
      (vs.foldl t.step memory))
    ∧ (t.finish (vs.foldl t.step memory)).Streams t.flags preferences saturated
      (vs.foldl t.step memory)

variable {t} {preferences : Preferences} {saturated : σ → Prop} {memory : σ}

/-- Where all calls stream, the call for an object does. -/
theorem Streams.process (h : t.Streams preferences saturated memory) (v : Value) :
    (t.process memory v).Streams t.flags preferences saturated memory :=
  (h []).1 v

/-- Where all calls stream, the end does. -/
theorem Streams.finish (h : t.Streams preferences saturated memory) :
    (t.finish memory).Streams t.flags preferences saturated memory :=
  (h []).2

/-- Where all calls stream from a memory on, they do from the one after an object. -/
theorem Streams.step (h : t.Streams preferences saturated memory) (v : Value) :
    t.Streams preferences saturated (t.step memory v) :=
  fun vs => h (v :: vs)

/-- Calls that stream to one saturation stream to any that is implied. -/
theorem Streams.mono {saturated' : σ → Prop} (himp : ∀ memory, saturated memory → saturated' memory)
    (h : t.Streams preferences saturated memory) : t.Streams preferences saturated' memory :=
  fun vs => ⟨fun v => ((h vs).1 v).mono himp, (h vs).2.mono himp⟩

/-- A command that writes nothing before its end writes then what it makes of all that it took. -/
theorem outputs_of_silent (hsilent : ∀ memory v, ((t.process memory v).yield t.flags memory).written = [])
    (memory : σ) (vs : List Value) : t.outputs memory vs
      = ((t.finish (vs.foldl t.step memory)).yield t.flags (vs.foldl t.step memory)).written := by
  induction vs generalizing memory with
  | nil => rfl
  | cons v vs ih => rw [outputs, hsilent, List.nil_append, ih, List.foldl_cons]

/-- A property of the memory that all calls preserve, and under which they stream. -/
theorem Streams.of_invariant {p : σ → Prop} (hstep : ∀ memory v, p memory → p (t.step memory v))
    (hprocess : ∀ memory v, p memory →
      (t.process memory v).Streams t.flags preferences saturated memory)
    (hfinish : ∀ memory, p memory → (t.finish memory).Streams t.flags preferences saturated memory)
    (h : p memory) : t.Streams preferences saturated memory := by
  intro vs
  induction vs generalizing memory with
  | nil => exact ⟨fun v => hprocess memory v h, hfinish memory h⟩
  | cons v vs ih => exact ih (hstep memory v h)

/-- A memory is saturated if it has a property that all calls preserve, and under which none
writes. -/
theorem Saturated.of_invariant {p : σ → Prop} (hstep : ∀ memory v, p memory → p (t.step memory v))
    (hprocess : ∀ memory v, p memory → ((t.process memory v).yield t.flags memory).written = [])
    (hfinish : ∀ memory, p memory → ((t.finish memory).yield t.flags memory).written = [])
    (h : p memory) : t.Saturated memory := by
  intro vs
  induction vs generalizing memory with
  | nil => exact hfinish memory h
  | cons v vs ih => rw [outputs, hprocess memory v h, ih (hstep memory v h), List.nil_append]

end Transducer

/-! ## Stages -/

namespace Stage

/-- The parameters of a call for an object, which the only parameter that takes objects takes. -/
def withObject (stage : Stage) (v : Value) : BoundParameters :=
  match stage.command.parameters.find? Parameter.acceptsInput with
  | some p => stage.bound.insert p.name v .pipelineByValue
  | none => stage.bound

/-- The command of a stage as a transducer, in a chain. -/
def transducer (stage : Stage) (chain : Chain) : Transducer stage.command.Memory where
  flags := chain.flags
  process memory v :=
    stage.command.process (stage.call chain .process (stage.withObject v) (some v)) memory
  finish memory := stage.command.finish (stage.call chain .finish stage.bound none) memory

/-- What the command writes for a list of objects and at its end. -/
def outputs (stage : Stage) (chain : Chain) (vs : List Value) : List Value :=
  (stage.transducer chain).outputs stage.memory vs

/-- What the command does when it is called to begin. -/
def opening (stage : Stage) (chain : Chain) : Hook stage.command.Memory :=
  (stage.command.begin (stage.call chain .begin stage.bound none) stage.memory).refuseWrites

/-- A stage whose command has begun. -/
def begun (stage : Stage) (chain : Chain) : Stage :=
  { stage with memory := ((stage.opening chain).yield chain.flags stage.memory).memory }

/-- A stage whose calls all stream once its parameters are bound: its begin, and then those for any
objects and its end. -/
structure Streams (stage : Stage) (chain : Chain) : Prop where
  opening : (stage.opening chain).Streams chain.flags stage.preferences
    (stage.transducer chain).Saturated stage.memory
  begun : (stage.transducer chain).Streams stage.preferences (stage.transducer chain).Saturated
    (stage.begun chain).memory

/-- What the last command writes where each one runs over all that the one before it writes, and
the first over a list of objects. -/
def batch (chain : Chain) : List Stage → List Value → List Value
  | [], vs => vs
  | stage :: rest, vs => batch chain rest (stage.outputs chain vs)

end Stage

end CommandChain
