import StepGraph.Step.Config
import StepGraph.Store.Basic
import StepGraph.Store.Placement

/-!
# Edits

The ways to change a graph. Every edit checks first and writes last: it
either happens as a whole or leaves the graph as it was. Edges place their
target: drawing one moves the target to where the source's kind sends it,
and since a node is in one place only, every other edge into the target
goes away.
-/

namespace StepGraph.Edit

/-! ## Nodes -/

/-- The nodes with one of them in another scope, at another place in the
order. -/
def rescope (id : String) (scope : Option Scope) (sequence : Nat) (nodes : List Node) :
    List Node :=
  nodes.map fun node => if node.id = id then { node with scope, sequence } else node

/-- Check a placement on the graph as it is. -/
def checkPlacement (moving : Option String) (kind : String) (payload : Payload)
    (scope : Option Scope) : Edit Unit := do
  let store ← get
  structural (Placement.check store.registry store.graph.nodes moving kind payload scope)

/-- Add a node; the answer is its id. -/
def addNode (kind : String) (payload : Payload) (scope : Option Scope) : Edit String := do
  checkPlacement none kind payload scope
  let id ← drawId "node"
  let sequence ← takeSequence
  let g ← graph
  setGraph { g with nodes := g.nodes ++ [⟨id, kind, scope, sequence, .origin, payload⟩] }
  return id

/-- The variable that a step's output becomes. -/
def outputVariable (output : Output) (producer : String) : Variable :=
  ⟨output.name, output.displayName, producer⟩

/-- Register a variable. -/
def insertVariable (entry : Variable) : Edit Unit := do
  let g ← graph
  let vars ← naming (g.vars.insert entry)
  setGraph { g with vars }

/-- Add an action with the code of a step, and the variable that the step
introduces. The variable is tried before there is a node. -/
def addStep (step : Step) (scope : Option Scope) : Edit String := do
  let g ← graph
  let payload ← configuration (step.payload g.vars g.assistants)
  match step.output? with
  | none => addNode Builtin.action.tag payload scope
  | some output =>
    let _ ← naming (g.vars.insert (outputVariable output ""))
    let id ← addNode Builtin.action.tag payload scope
    insertVariable (outputVariable output id)
    return id

/-- Remove a node with all nodes inside it, the edges that touch one of
them, and the variables that they produce. -/
def removeNode (id : String) : Edit Unit := do
  let g ← graph
  let _ ← orRefuse (.nodeNotFound id) (g.node? id)
  let removed := id :: ((Containment.mk g.nodes).descendants id).map Node.id
  setGraph { g with
    nodes := g.nodes.filter fun node => !removed.contains node.id
    edges := g.edges.filter fun edge => !removed.any edge.touches
    vars := g.vars.filter fun v => !removed.contains v.producer }

/-- Draw a node elsewhere. -/
def moveNode (id : String) (position : Position) : Edit Unit := do
  let g ← graph
  let _ ← orRefuse (.nodeNotFound id) (g.node? id)
  setGraph { g with
    nodes := g.nodes.map fun node => if node.id = id then { node with position } else node }

/-! ## Edges -/

/-- The target of an edge that is moved away from it, where the edge is
moved to another target; it falls back to the top level and has to be
allowed there. -/
def orphanOf (replacing : Option String) (target : String) : Edit (Option Node) := do
  let g ← graph
  match replacing.bind g.edge? with
  | none => return none
  | some old =>
    if old.target = target then return none
    else
      let node ← orRefuse (.nodeNotFound old.target) (g.node? old.target)
      checkPlacement (some node.id) node.kind node.payload none
      return some node

/-- The scope that an edge gives its target. A sibling of the node that
falls back to the top level goes there as well. -/
def scopeOf (route : Route) (source : Node) (orphan : Option Node) : Option Scope :=
  match route with
  | .slot slot => some ⟨source.id, slot⟩
  | .sibling => if orphan.map Node.id = some source.id then none else source.scope
  | .root => none

/-- Put an edge in place, of a new one or of the one it replaces, and its
target where the edge leads. -/
def applyEdge (replacing : Option String) (edge : Edge) : Edit Unit := do
  let store ← get
  let g := store.graph
  let source ← orRefuse (.nodeNotFound edge.source) (g.node? edge.source)
  let target ← orRefuse (.nodeNotFound edge.target) (g.node? edge.target)
  let kind ← orRefuse (.invalidHandle source.kind edge.handle.text)
    (store.registry.get? source.kind)
  let orphan ← orphanOf replacing edge.target
  let route ← structural (kind.route edge.handle)
  let scope := scopeOf route source orphan
  structural (Placement.checkAcyclic g target.id scope)
  checkPlacement (some target.id) target.kind target.payload scope
  let sequence ← takeSequence
  let placed := rescope target.id scope sequence g.nodes
  let nodes ← match orphan with
    | none => pure placed
    | some node =>
      let sequence ← takeSequence
      pure (rescope node.id none sequence placed)
  let kept := g.edges.filter fun e => some e.id != replacing && e.target != target.id
  setGraph { g with nodes, edges := kept ++ [edge] }

/-- Draw an edge; the answer is its id. The id is drawn before anything is
checked. -/
def connect (source target : String) (handle : Handle) : Edit String := do
  let id ← drawId "edge"
  applyEdge none ⟨id, source, target, handle⟩
  return id

/-- Move an edge. A target that it leaves falls back to the top level. -/
def reconnect (id source target : String) (handle : Handle) : Edit Unit := do
  let g ← graph
  let _ ← orRefuse (.edgeNotFound id) (g.edge? id)
  applyEdge (some id) ⟨id, source, target, handle⟩

/-- Delete an edge; its target falls back to the top level. -/
def disconnect (id : String) : Edit Unit := do
  let g ← graph
  let edge ← orRefuse (.edgeNotFound id) (g.edge? id)
  let target ← orRefuse (.nodeNotFound edge.target) (g.node? edge.target)
  checkPlacement (some target.id) target.kind target.payload none
  let sequence ← takeSequence
  setGraph { g with
    nodes := rescope edge.target none sequence g.nodes
    edges := g.edges.filter fun e => e.id != id }

/-! ## Names -/

/-- Register a variable for a node of the graph. -/
def registerVariable (name displayName producer : String) : Edit Unit := do
  let g ← graph
  let _ ← orRefuse (.nodeNotFound producer) (g.node? producer)
  insertVariable ⟨name, displayName, producer⟩

/-- Register an assistant. -/
def registerAssistant (name model personality : String) : Edit Unit := do
  let g ← graph
  let assistants ← naming (g.assistants.insert ⟨name, model, personality⟩)
  setGraph { g with assistants }

end StepGraph.Edit
