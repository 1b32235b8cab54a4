import AddressExpansion.Address.Document
import AddressExpansion.Batch
import AddressExpansion.Expansion.Timing
import AddressExpansion.Main
import AddressExpansion.Session
import AddressExpansion.Proofs.Address.Agreement
import AddressExpansion.Proofs.Address.Range
import AddressExpansion.Proofs.Address.Usable
import AddressExpansion.Proofs.Expansion.Unfolding
import AddressExpansion.Proofs.Expansion.Worth
import AddressExpansion.Proofs.Engine.Addresses
import AddressExpansion.Proofs.Engine.Cancellation
import AddressExpansion.Proofs.Engine.Completion
import AddressExpansion.Proofs.Engine.Inlining
import AddressExpansion.Proofs.Engine.Latency
import AddressExpansion.Proofs.Engine.Lines
import AddressExpansion.Proofs.Engine.Outcome
import AddressExpansion.Proofs.Engine.Overrides
import AddressExpansion.Proofs.Engine.Recursion
import AddressExpansion.Proofs.Engine.RoundTrip
import AddressExpansion.Proofs.Engine.Tracing
import AddressExpansion.Proofs.Engine.Validation
import AddressExpansion.Proofs.Program.Items
import AddressExpansion.Proofs.Program.RawOutput
import AddressExpansion.Proofs.CommandLine
import AddressExpansion.Proofs.Json.Locality
import AddressExpansion.Proofs.Term.Grammar
import AddressExpansion.Proofs.LogLine
import AddressExpansion.Proofs.Task.Warnings
import AddressExpansion.Proofs.Expansion.Warnings
import AddressExpansion.Proofs.Engine.Warnings
import AddressExpansion.Proofs.Term.Blanks
import AddressExpansion.Proofs.Expansion.Blanks
import AddressExpansion.Proofs.Engine.Blanks
import AddressExpansion.Proofs.Following
import AddressExpansion.Proofs.Task.Survey
import AddressExpansion.Proofs.Engine.Reach
import AddressExpansion.Proofs.Task.Agreement
