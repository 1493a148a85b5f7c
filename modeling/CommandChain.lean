import CommandChain.Main
import CommandChain.Recipe
import CommandChain.Proofs.Halting
import CommandChain.Proofs.Cut
import CommandChain.Proofs.Success
import CommandChain.Proofs.Streaming.Batch
import CommandChain.Proofs.Disposal.Complete
import CommandChain.Proofs.Accounts.Complete
import CommandChain.Proofs.Passage
import CommandChain.Proofs.Lifecycle.Complete
import CommandChain.Proofs.Pipes.Safe
import CommandChain.Proofs.Pipes.Queue
import CommandChain.Proofs.Tokens.Descent
import CommandChain.Proofs.Disposal.Unwinding
import CommandChain.Proofs.Escalation
import CommandChain.Proofs.Binding.Calls
import CommandChain.Proofs.Binding.Objection
import CommandChain.Proofs.Binding.Failure
import CommandChain.Proofs.Silencing.Complete
import CommandChain.Proofs.Watching.Complete
import CommandChain.Proofs.Values.Wildcard
import CommandChain.Proofs.Binding.Intake
import CommandChain.Proofs.Values.Folding
import CommandChain.Proofs.Values.Numbers
import CommandChain.Proofs.Values.Coherence
import CommandChain.Proofs.Values.Rounding
import CommandChain.Proofs.Values.Doubles
import CommandChain.Proofs.Values.Sorting
import CommandChain.Proofs.Values.Integers
import CommandChain.Proofs.Values.Numerals
import CommandChain.Proofs.Sorting.Complete
import CommandChain.Proofs.Selecting.Complete
import CommandChain.Proofs.Values.Texts
import CommandChain.Proofs.Documents.Values
import CommandChain.Proofs.Documents.Configuration
import CommandChain.Proofs.Streaming.Mapping
import CommandChain.Proofs.Streaming.Measuring
import CommandChain.Proofs.Values.Flattening
import CommandChain.Proofs.Registration
