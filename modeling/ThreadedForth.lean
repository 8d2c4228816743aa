import ThreadedForth.CallStack
import ThreadedForth.CommandLine.Arguments
import ThreadedForth.CommandLine.Run
import ThreadedForth.Dictionary
import ThreadedForth.Dictionary.Edit
import ThreadedForth.Event
import ThreadedForth.Machine
import ThreadedForth.Machine.Descent
import ThreadedForth.Machine.Interpret
import ThreadedForth.Machine.Run
import ThreadedForth.Main
import ThreadedForth.Numeral
import ThreadedForth.Outcome
import ThreadedForth.Primitive
import ThreadedForth.Primitive.Data
import ThreadedForth.Primitive.System
import ThreadedForth.Problem
import ThreadedForth.Proofs.Abandonment
import ThreadedForth.Proofs.Binding
import ThreadedForth.Proofs.Chunks
import ThreadedForth.Proofs.Compilation
import ThreadedForth.Proofs.Conversation
import ThreadedForth.Proofs.Decomposition
import ThreadedForth.Proofs.Definition
import ThreadedForth.Proofs.Dictionary
import ThreadedForth.Proofs.Entry
import ThreadedForth.Proofs.Evaluation
import ThreadedForth.Proofs.Execution
import ThreadedForth.Proofs.Failure
import ThreadedForth.Proofs.Forgetting
import ThreadedForth.Proofs.Growth
import ThreadedForth.Proofs.Integrity
import ThreadedForth.Proofs.Invocation
import ThreadedForth.Proofs.Literal
import ThreadedForth.Proofs.Locality
import ThreadedForth.Proofs.Lockstep
import ThreadedForth.Proofs.Logging
import ThreadedForth.Proofs.Meaning
import ThreadedForth.Proofs.Moments
import ThreadedForth.Proofs.Nesting
import ThreadedForth.Proofs.Outcome
import ThreadedForth.Proofs.Overflow
import ThreadedForth.Proofs.Primitive
import ThreadedForth.Proofs.Provenance
import ThreadedForth.Proofs.Refinement
import ThreadedForth.Proofs.Renumbering
import ThreadedForth.Proofs.Rereading
import ThreadedForth.Proofs.Resolution
import ThreadedForth.Proofs.Room
import ThreadedForth.Proofs.RoundTrip
import ThreadedForth.Proofs.Scanning
import ThreadedForth.Proofs.Session
import ThreadedForth.Proofs.Simulation
import ThreadedForth.Proofs.Soundness
import ThreadedForth.Proofs.Spelling
import ThreadedForth.Proofs.StackEffect
import ThreadedForth.Proofs.Termination
import ThreadedForth.Proofs.Unwinding
import ThreadedForth.Repl
import ThreadedForth.Session
import ThreadedForth.Source.File
import ThreadedForth.Source.Utf8
import ThreadedForth.Stack
import ThreadedForth.Stack.Operation
import ThreadedForth.State
import ThreadedForth.Text
import ThreadedForth.Token
import ThreadedForth.Token.Lexer
import ThreadedForth.Value
import ThreadedForth.Word
