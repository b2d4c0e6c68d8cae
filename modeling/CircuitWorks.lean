import CircuitWorks.Clifford
import CircuitWorks.Dag.Dot
import CircuitWorks.Display.Page
import CircuitWorks.OpType.Json
import CircuitWorks.Proofs.Backend
import CircuitWorks.Proofs.Decompose.Frame
import CircuitWorks.Proofs.Decompose.Repetition
import CircuitWorks.Proofs.Decompose.Reuse
import CircuitWorks.Proofs.Graph.Colouring
import CircuitWorks.Proofs.Logic.Storage
import CircuitWorks.Proofs.Outcome.Collisions
import CircuitWorks.Proofs.Qasm.Conditions
import CircuitWorks.Proofs.Qasm.RoundTrip
import CircuitWorks.Proofs.Qasm.Renaming
import CircuitWorks.Proofs.Quipper.Inverses
import CircuitWorks.Proofs.Quipper.Renaming
import CircuitWorks.Proofs.Readout.Bijections
import CircuitWorks.Proofs.Result.Forgetting
import CircuitWorks.Proofs.Result.Relabelling
import CircuitWorks.Proofs.Spam.Storage
import CircuitWorks.Proofs.Spiders
import CircuitWorks.Qasm.File
import CircuitWorks.Proofs.Settings
import CircuitWorks.Pass.Script
