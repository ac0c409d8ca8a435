import StepGraph.Main
import StepGraph.Proofs.Artifact.Bytes
import StepGraph.Proofs.Condition.Grouping
import StepGraph.Proofs.Document.RoundTrip
import StepGraph.Proofs.Document.Unchanged
import StepGraph.Proofs.Document.Unordered
import StepGraph.Proofs.Names.Declarable
import StepGraph.Proofs.Names.Indexed
import StepGraph.Proofs.Script.Complete
import StepGraph.Proofs.Script.Dispatch
import StepGraph.Proofs.Script.LineComment
import StepGraph.Proofs.Script.Meaning
import StepGraph.Proofs.Script.WholeLines
import StepGraph.Proofs.Step.Exposed
import StepGraph.Proofs.Step.LiteralValue
import StepGraph.Proofs.Step.OwnLiteral
import StepGraph.Proofs.Step.TemplateLiteral
import StepGraph.Proofs.Store.Alias
import StepGraph.Proofs.Store.Circles
import StepGraph.Proofs.Store.Drawing
import StepGraph.Proofs.Store.Handles
import StepGraph.Proofs.Store.LegalEdge
import StepGraph.Proofs.Store.MovedOn
import StepGraph.Proofs.Store.References
import StepGraph.Proofs.Store.Refusal
import StepGraph.Proofs.Store.Reload
import StepGraph.Proofs.Store.Removal
import StepGraph.Proofs.Store.Reordering
import StepGraph.Proofs.Store.Request
import StepGraph.Proofs.Store.Saving
import StepGraph.Proofs.Store.Undoing
