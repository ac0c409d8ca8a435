import StepGraph.Graph.Basic
import StepGraph.Script.Generation

/-!
# Compiling graphs

A graph is compiled in two steps: every node of a registered kind is
validated, and only where no configuration is at fault the script is
generated. Nodes of unregistered kinds are no fault; the script says which
were skipped.
-/

namespace StepGraph

/-- The faulty configurations of a graph, at least one. -/
structure ValidationReport where
  errors : List ConfigurationError
  deriving DecidableEq, Repr

def ValidationReport.message (report : ValidationReport) : String :=
  "Graph has " ++ Text.natText report.errors.length ++ " configuration error(s): "
    ++ "; ".intercalate (report.errors.map ConfigurationError.message)

namespace Graph

/-- The containment view of a graph. -/
def containment (graph : Graph) : Containment :=
  ⟨graph.nodes⟩

/-- The fault of a node's configuration. -/
def fault? (registry : Registry) (containment : Containment) (node : Node) :
    Option ConfigurationError :=
  match registry.get? node.kind with
  | none => none
  | some kind =>
    match kind.validate node containment with
    | .ok () => none
    | .error error => some error

/-- The faults of all configurations, in the order of the nodes. -/
def faults (graph : Graph) (registry : Registry) : List ConfigurationError :=
  graph.nodes.filterMap (fault? registry graph.containment)

/-- A graph is valid when no configuration is at fault. -/
def validate (graph : Graph) (registry : Registry) : Except ValidationReport Unit :=
  match graph.faults registry with
  | [] => .ok ()
  | errors => .error ⟨errors⟩

/-- **The script of a graph**, where the graph is valid. -/
def compile (graph : Graph) (registry : Registry) (comments : Bool) :
    Except ValidationReport Script :=
  match graph.validate registry with
  | .ok () => .ok (Script.generate registry graph.containment comments)
  | .error report => .error report

end Graph

end StepGraph
