import CommandChain.Proofs.Watching.Builtin
import CommandChain.Proofs.Watching.Lines
import CommandChain.Proofs.Watching.Order
import CommandChain.Proofs.Watching.Run
/-!
# The timeline, the channel and the command line agree

Every record that reaches the host is kept for the outcome and sent over the channel, and the program
writes the messages of the channel as lines. So what a host reads live is what it is given at the end, and
a host that goes away changes nothing of that.
-/

namespace CommandChain

/-! ## Watching a chain -/

/-- How the runs of a chain look over each channel, given by their results and what is left then: whether a
host watches, and how long, changes nothing of the result; a host that stays is sent every record and then
how the chain completed, and one that goes away the messages up to that; and the records of each channel are
numbered in increasing order. -/
structure Shows (run : LiveChannel → Except Panic Outcome × Pipeline) : Prop where
  outcome : ∀ live, (run live).1 = (run .absent).1
  connected : ∀ o, (run .absent).1 = .ok o → (run (.connected none)).2.chain.messages
    = o.records.map HostMessage.record ++ [HostMessage.completed o.status o.terminalFault]
  disconnected : ∀ o n, (run .absent).1 = .ok o → (run (.connected (some n))).2.chain.messages
    = (o.records.map HostMessage.record ++ [HostMessage.completed o.status o.terminalFault]).take n
  numbered : ∀ o, (run .absent).1 = .ok o → ∀ kind,
    (o.ofKind kind).Pairwise fun r r' => r.sequence < r'.sequence

section

variable (settings : ChainSettings) (host : StopToken) (flags : StopFlags)
  (specs : List CommandSpec) (tokens : List StopToken) (input : Option (List Value))

/-- Every chain shows what it should over every channel. -/
theorem Pipeline.shows : Shows fun live =>
    ((build { settings with live := live } host flags specs).signaled tokens).invoke input where
  outcome := invoke_live { settings with live := .absent } host flags specs tokens input
  connected _ ho :=
    messages_of_invoke { settings with live := .absent } host flags specs tokens input (.connected none) ho
  disconnected _ n ho := messages_of_invoke { settings with live := .absent } host flags specs tokens input
    (.connected (some n)) ho
  numbered _ ho :=
    sequences_increase { settings with live := .absent } host flags specs tokens input ho

end

namespace CommandLine

end CommandLine

end CommandChain
