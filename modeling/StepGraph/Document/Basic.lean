import StepGraph.Graph.Basic

/-!
# Documents

A document is what is saved of a graph: four lists of plain records. It
differs from the graph in one point, the scope of a node being one text.
-/

namespace StepGraph

/-- The saved form of a node. -/
structure NodeRecord where
  id : String
  kind : String
  parentId : Option String
  sequence : Nat
  position : Position
  payload : Payload

/-- The saved form of a graph. -/
structure Document where
  nodes : List NodeRecord
  edges : List Edge
  vars : List Variable
  assistants : List Assistant

/-- The record of a node. -/
def NodeRecord.ofNode (node : Node) : NodeRecord where
  id := node.id
  kind := node.kind
  parentId := node.parentId?
  sequence := node.sequence
  position := node.position
  payload := node.payload

/-- The document of a graph. -/
def Document.ofGraph (graph : Graph) : Document where
  nodes := graph.nodes.map NodeRecord.ofNode
  edges := graph.edges
  vars := graph.vars.entries
  assistants := graph.assistants.entries

end StepGraph
