import StepGraph.Graph.Scope
import StepGraph.Json.Basic

/-!
# Nodes

A node is one step of the automation. Its kind says what it does, its scope
where it is nested and its sequence when it comes among its siblings; the
payload is plain data that the kind reads, and the position is for drawing
only.
-/

namespace StepGraph

/-- Where a node is drawn. -/
structure Position where
  x : Binary64
  y : Binary64
  deriving DecidableEq, Repr

namespace Position

def origin : Position := ⟨.zero, .zero⟩

/-- Equality of positions as numbers. -/
def same (p q : Position) : Bool :=
  p.x.same q.x && p.y.same q.y

end Position

/-- The data of a node: a label, fragments of code, and a configuration. -/
structure Payload where
  label : String
  code : List String
  config : Json

namespace Payload

def empty : Payload := ⟨"", [], .null⟩

def same (p q : Payload) : Bool :=
  p.label == q.label && p.code == q.code && p.config.same q.config

end Payload

/-- One step of the automation. -/
structure Node where
  id : String
  kind : String
  scope : Option Scope
  sequence : Nat
  position : Position
  payload : Payload

namespace Node

/-- The node's owner; nothing at the top level. -/
def owner? (node : Node) : Option String :=
  node.scope.map Scope.owner

/-- The saved text of the node's scope. -/
def parentId? (node : Node) : Option String :=
  node.scope.map Scope.parentId

def isOwnedBy (node : Node) (owner : String) : Bool :=
  node.owner? == some owner

def same (m n : Node) : Bool :=
  m.id == n.id && m.kind == n.kind && m.scope == n.scope && m.sequence == n.sequence
    && m.position.same n.position && m.payload.same n.payload

end Node

end StepGraph
