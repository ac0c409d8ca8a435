import StepGraph.Graph.Node

/-!
# Containment

The containment view of a list of nodes answers who is nested where. The
nodes of one scope are siblings and stand in the order of their sequence
numbers; where two have the same number, their ids decide.
-/

namespace StepGraph

/-! ## The order of siblings -/

/-- Whether a node comes before another among its siblings. -/
def Node.precedes (m n : Node) : Bool :=
  m.sequence < n.sequence || (m.sequence == n.sequence && m.id < n.id)

/-- Put a node among ordered siblings, before the first that does not
precede it. -/
def insertSibling (node : Node) : List Node → List Node
  | [] => [node]
  | first :: rest =>
    if first.precedes node then first :: insertSibling node rest else node :: first :: rest

/-- Nodes in the order of siblings; equal ones keep their order. -/
def orderSiblings (nodes : List Node) : List Node :=
  nodes.foldr insertSibling []

/-! ## The view -/

/-- The containment view of a list of nodes. -/
structure Containment where
  nodes : List Node

namespace Containment

/-- The nodes of a scope, or of the top level, in order. -/
def children (view : Containment) (scope : Option Scope) : List Node :=
  orderSiblings (view.nodes.filter (·.scope == scope))

/-- The nodes of the top level. -/
def root (view : Containment) : List Node :=
  view.children none

/-- The nodes of one slot of an owner. -/
def slotChildren (view : Containment) (owner : String) (slot : Slot) : List Node :=
  view.children (some ⟨owner, slot⟩)

/-- The nodes of all slots of an owner. -/
def ownedBy (view : Containment) (owner : String) : List Node :=
  orderSiblings (view.nodes.filter (·.isOwnedBy owner))

/-- The case slots in which nodes of an owner sit, one for each node. -/
def caseSlots (view : Containment) (owner : String) : List Slot :=
  (view.ownedBy owner).filterMap fun node =>
    match node.scope with
    | some ⟨_, .caseBranch value⟩ => some (.caseBranch value)
    | _ => none

/-- Descendants down to a depth. -/
def descendantsTo (view : Containment) : Nat → String → List Node
  | 0, _ => []
  | depth + 1, owner =>
    let owned := view.ownedBy owner
    owned ++ owned.reverse.flatMap fun node => view.descendantsTo depth node.id

/-- **All nodes inside a node**, at any depth: first its own, then the
descendants of each of these, the last one first. No chain of owners is
longer than the list of nodes, unless it runs in a circle. -/
def descendants (view : Containment) (owner : String) : List Node :=
  view.descendantsTo view.nodes.length owner

end Containment

end StepGraph
