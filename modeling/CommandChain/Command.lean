import CommandChain.Fault
import CommandChain.Outcome
import CommandChain.Preference
import CommandChain.Script.Limits
/-!
# Commands

A command is a machine with a memory of its own. What it does during a lifecycle call is a `Hook`:
a tree of the requests it makes of the engine, each with the continuation that receives the answer.
Since a hook is data, the engine that serves it decides what every request means, and a statement
about all hooks is proved by induction on the tree.
-/

namespace CommandChain

/-- What a chain that was run by a command leaves behind: the notes of its commands, the tokens
that they signaled, and its outcome unless it panicked. -/
structure ChainReport where
  notes : List String
  signals : List StopToken
  outcome : Except Panic Outcome

/-- What a command does during one lifecycle call.

A write gives the command a result to go on with, never a panic: where a command behind it panics
while it takes what was written, the call that wrote is unwound as well, and no continuation of it
is served. A command that caught such a panic and went on would be none of these, so what is proved
about every command says nothing of one. -/
inductive Hook (σ : Type) where
  /-- Returns. -/
  | done (result : CallResult)
  /-- Unwinds. -/
  | panic (p : Panic)
  /-- Replaces the memory of the command. -/
  | store (memory : σ) (next : Hook σ)
  /-- Writes an object to the next command. -/
  | write (v : Value) (next : CallResult → Hook σ)
  /-- Writes a message to the host. -/
  | report (m : Message) (next : CallResult → Hook σ)
  /-- Declares that no further input is needed. -/
  | cutInput (next : Hook σ)
  /-- Asks whether the chain is halting or the command has been cut off. -/
  | askStopping (next : Bool → Hook σ)
  /-- Puts a note on the timeline. -/
  | note (text : String) (next : Hook σ)
  /-- Signals a stop token. -/
  | signal (token : StopToken) (next : Hook σ)
  /-- Asks whether a stop token has been signaled. -/
  | askSignaled (token : StopToken) (next : Bool → Hook σ)
  /-- Runs a chain of its own; a panic of that chain unwinds this call too. -/
  | runChain (chain : StopFlags → ChainReport) (next : Outcome → Hook σ)

namespace Hook

/-- Writes objects in order until one write is refused, and goes on with the last result. -/
def writeAll {σ : Type} : List Value → (CallResult → Hook σ) → Hook σ
  | [], next => next .ok
  | v :: rest, next => .write v fun
    | .ok => writeAll rest next
    | refused => next refused

/-- Writes the elements of an array, or any other value itself. -/
def writeEnumerated {σ : Type} (v : Value) (next : CallResult → Hook σ) : Hook σ :=
  match v with
  | .array items => writeAll items next
  | other => .write other next

end Hook

/-- What a command sees of the call it is in. -/
structure Call where
  id : CommandId
  /-- The position in the chain, starting at zero. -/
  position : Nat
  name : String
  phase : Phase
  /-- The static values and those of the current object. -/
  parameters : BoundParameters
  /-- The object being processed. -/
  input : Option Value
  preferences : Preferences
  adapter : Adapter
  scripts : Script.Limits

namespace Call

/-- The source of the records written during the call. -/
def source (call : Call) : RecordSource :=
  ⟨call.id, call.name⟩

/-- The object bound to `InputObject`, or null. -/
def inputObject (call : Call) : Value :=
  (call.parameters.get? "InputObject").getD .null

/-- The texts bound to a parameter that takes a list of texts. -/
def textList (call : Call) (parameter : String) : List String :=
  match call.parameters.get? parameter with
  | some (.array items) => items.map Value.display
  | some .null | none => []
  | some other => [other.display]

end Call

/-- What a hook that is given no call leaves behind: the memory, notes for the timeline, signaled
tokens, and its result unless it panicked. -/
structure Parting (σ : Type) (α : Type) where
  memory : σ
  notes : List String := []
  signals : List StopToken := []
  result : Except Panic α

/-- A unit of work in a chain. -/
structure Command : Type 1 where
  name : String
  parameters : List Parameter
  /-- What the command remembers between calls. -/
  Memory : Type
  fresh : Memory
  /-- Called once, before any object arrives. -/
  begin : Call → Memory → Hook Memory := fun _ _ => .done .ok
  /-- Called for each object, or once for a command that takes no input. -/
  process : Call → Memory → Hook Memory
  /-- Called once, after the last object. -/
  finish : Call → Memory → Hook Memory := fun _ _ => .done .ok
  /-- Called in place of `finish` when the chain halts. -/
  stop : StopFlags → Memory → Parting Memory Unit := fun _ m => { memory := m, result := .ok () }
  /-- Releases what the command holds; called once on every way out. -/
  dispose : StopFlags → Memory → Parting Memory (Option CommandFault) :=
    fun _ m => { memory := m, result := .ok none }

/-- The hook of a lifecycle call. -/
def Command.hook (c : Command) (call : Call) (memory : c.Memory) : Hook c.Memory :=
  match call.phase with
  | .begin => c.begin call memory
  | .process => c.process call memory
  | _ => c.finish call memory

/-- A command with what was supplied for it. -/
structure CommandSpec : Type 1 where
  command : Command
  arguments : List Argument := []
  /-- Overrides what the chain does about objects that cannot be bound. -/
  bindingErrors : Option BindingErrorAction := none

end CommandChain
