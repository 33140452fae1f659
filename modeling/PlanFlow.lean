import PlanFlow.Compile
import PlanFlow.Log.Logger
import PlanFlow.Proofs.NodeId
import PlanFlow.Proofs.Sorted
import PlanFlow.Trace
import PlanFlow.Workflow.Builder
import PlanFlow.Proofs.Table
import PlanFlow.Proofs.Validation
import PlanFlow.Proofs.Layout
import PlanFlow.Proofs.Synthesis
import PlanFlow.Proofs.Assembly
import PlanFlow.Proofs.Sketch
import PlanFlow.Proofs.Compilation
import PlanFlow.Proofs.Topology
import PlanFlow.Proofs.Precedence
import PlanFlow.Proofs.Scheduling
import PlanFlow.Proofs.Collection
import PlanFlow.Proofs.Canonical
import PlanFlow.Proofs.Writing
import PlanFlow.Proofs.Checked
import PlanFlow.Proofs.Digest
import PlanFlow.Proofs.Naming
import PlanFlow.Proofs.Acceptance
import PlanFlow.Proofs.Decimal
import PlanFlow.Proofs.Chaining
import PlanFlow.Proofs.Orderly
import PlanFlow.Proofs.Written
import PlanFlow.Proofs.Numerals
import PlanFlow.Proofs.Verdict
import PlanFlow.Proofs.Acyclic
import PlanFlow.Proofs.Building
import PlanFlow.Proofs.Decoding
import PlanFlow.Proofs.Stored
import PlanFlow.Proofs.Faithful
import PlanFlow.Proofs.Rereading
import PlanFlow.Proofs.RoundTrip
import PlanFlow.Proofs.Admission
import PlanFlow.Proofs.EdgeOrder
import PlanFlow.Proofs.Rebuilding
import PlanFlow.Proofs.Resending
import PlanFlow.Proofs.Passage
import PlanFlow.Proofs.Validity
import PlanFlow.Proofs.Normalizing
import PlanFlow.Proofs.Representable
import PlanFlow.Proofs.Rounding
import PlanFlow.Proofs.Shortest
import PlanFlow.Proofs.Spelling
import PlanFlow.Proofs.Transport
import PlanFlow.Proofs.Containment
import PlanFlow.Proofs.References
import PlanFlow.Proofs.OutputOrder
import PlanFlow.Proofs.Reordering
import PlanFlow.Proofs.KeyReading
import PlanFlow.Proofs.KeyWriting
import PlanFlow.Proofs.KeyOrder
import PlanFlow.Proofs.Prompting
import PlanFlow.Proofs.Placeholders
import PlanFlow.Proofs.Resemblance
import PlanFlow.Proofs.Reshuffling
import PlanFlow.Proofs.Widening
import PlanFlow.Proofs.Gathering
import PlanFlow.Proofs.DataFlow
import PlanFlow.Proofs.CycleReport
import PlanFlow.Proofs.PlanFaults
import PlanFlow.Proofs.Targets
import PlanFlow.Proofs.Itemwise
import PlanFlow.Proofs.ToolSettling
import PlanFlow.Proofs.Interleaving
import PlanFlow.Proofs.EdgeMerging
import PlanFlow.Proofs.Rejection
import PlanFlow.Proofs.Token
import PlanFlow.Proofs.Families
import PlanFlow.Proofs.Candidates
import PlanFlow.Proofs.Unvalidated
