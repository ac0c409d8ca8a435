import StepGraph.Graph.Handle
import StepGraph.Graph.Node
import StepGraph.Names.Assistant
import StepGraph.Names.Variable

/-!
# Graphs

A graph holds nodes and edges in the order in which they came, and the two
name tables. Nesting is said by the scopes of the nodes alone; edges are
drawings of how nodes came to be where they are.
-/

namespace StepGraph

/-- A drawn connection between two nodes. -/
structure Edge where
  id : String
  source : String
  target : String
  handle : Handle
  deriving DecidableEq, Repr

/-- Whether a node is an end of the edge. -/
def Edge.touches (edge : Edge) (id : String) : Bool :=
  edge.source == id || edge.target == id

/-- An automation graph. -/
structure Graph where
  nodes : List Node
  edges : List Edge
  vars : VariableTable
  assistants : AssistantTable

namespace Graph

def empty : Graph := ⟨[], [], .empty, .empty⟩

def node? (graph : Graph) (id : String) : Option Node :=
  graph.nodes.find? (·.id == id)

def edge? (graph : Graph) (id : String) : Option Edge :=
  graph.edges.find? (·.id == id)

def isEmpty (graph : Graph) : Bool :=
  graph.nodes.isEmpty

/-- The ids of all nodes and edges. -/
def usedIds (graph : Graph) : List String :=
  graph.nodes.map Node.id ++ graph.edges.map Edge.id

/-- The owner of a node of the graph. -/
def ownerOf? (graph : Graph) (id : String) : Option String :=
  (graph.node? id).bind Node.owner?

/-- Pairwise comparison of two lists. -/
def sameList (same : α → α → Bool) : List α → List α → Bool
  | [], [] => true
  | x :: xs, y :: ys => same x y && sameList same xs ys
  | _, _ => false

/-- Equality of graphs, where numbers are compared as numbers and a table
counts by its entries. -/
def same (g h : Graph) : Bool :=
  sameList Node.same g.nodes h.nodes && g.edges == h.edges
    && g.vars.entries == h.vars.entries
    && g.assistants.entries == h.assistants.entries

end Graph

end StepGraph
