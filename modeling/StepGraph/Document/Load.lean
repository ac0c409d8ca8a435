import StepGraph.Document.Basic
import StepGraph.Script.Generation
import StepGraph.Store.Basic
import StepGraph.Store.Placement

/-!
# Loading documents

A document may come from anywhere, so loading checks all that editing
keeps: ids are free, every parent text names a scope, no node lies inside
itself, edges and variables refer to nodes, names are allowed, and every
node is legally placed. Nodes of unregistered kinds are kept and reported,
and so are the nodes inside them, whose placement nobody can judge.
-/

namespace StepGraph

/-- Why a document is not loaded. -/
inductive LoadError where
  /-- The text is no document. -/
  | unreadable
  | structural (error : StructureError)
  | naming (error : NamingError)
  deriving DecidableEq, Repr

/-- What is wrong with an unreadable text is not said. -/
def LoadError.message : LoadError → String
  | unreadable => "Failed to parse graph JSON"
  | structural error => "Invalid graph structure: " ++ error.message
  | naming error => "Invalid graph registry: " ++ error.message

/-- A store made from a document, and the nodes of unregistered kinds. -/
structure Loaded where
  store : Store
  unbound : List Diagnostic

namespace Document

/-! ## The checks -/

/-- The first entry of a list that stands there a second time. -/
def firstRepeated? : List String → List String → Option String
  | _, [] => none
  | seen, id :: rest => if seen.contains id then some id else firstRepeated? (id :: seen) rest

/-- All ids are different. -/
def checkIds (document : Document) : Except StructureError Unit :=
  match firstRepeated? []
    (document.nodes.map NodeRecord.id ++ document.edges.map Edge.id) with
  | some id => .error (.duplicateId id)
  | none => .ok ()

/-- The scope that a record's parent text names. -/
def scopeOf (nodeIds : List String) (parentId : Option String) :
    Except StructureError (Option Scope) :=
  match parentId with
  | none => .ok none
  | some text =>
    match Scope.parse? nodeIds.contains text with
    | some scope => .ok (some scope)
    | none => .error (.scopeNotFound text)

/-- The node of a record. -/
def nodeOf (nodeIds : List String) (record : NodeRecord) : Except StructureError Node := do
  let scope ← scopeOf nodeIds record.parentId
  return ⟨record.id, record.kind, scope, record.sequence, record.position, record.payload⟩

/-- The id to which a chain of owners comes back, when it does within the
given number of steps. -/
def revisited? (owner? : String → Option String) : Nat → List String → String → Option String
  | 0, _, _ => none
  | steps + 1, seen, id =>
    if seen.contains id then some id
    else match owner? id with
      | none => none
      | some owner => revisited? owner? steps (id :: seen) owner

/-- The owner of a node, looked up in a list of nodes. The last node with the
id counts. -/
def ownerIn (nodes : List Node) (id : String) : Option String :=
  (nodes.reverse.find? (·.id == id)).bind Node.owner?

/-- No node lies inside itself. A chain of owners that is longer than the
list of nodes has come back to one of them. -/
def checkCycles (nodes : List Node) : Except StructureError Unit :=
  nodes.forM fun node =>
    match revisited? (ownerIn nodes) (nodes.length + 2) [] node.id with
    | some id => .error (.cyclicContainment node.id id)
    | none => .ok ()

/-- A node that something refers to is there. -/
def checkKnown (nodeIds : List String) (id : String) : Except StructureError Unit :=
  if nodeIds.contains id then .ok () else .error (.nodeNotFound id)

/-- Every edge and every variable refers to nodes. -/
def checkReferences (document : Document) (nodeIds : List String) :
    Except StructureError Unit := do
  document.edges.forM fun edge => do
    checkKnown nodeIds edge.source
    checkKnown nodeIds edge.target
  document.vars.forM fun v => checkKnown nodeIds v.producer

/-- Whether a node's owner is of an unregistered kind. -/
def ownerUnbound (registry : Registry) (nodes : List Node) (node : Node) : Bool :=
  match node.owner?.bind fun owner => nodes.find? (·.id == owner) with
  | some owner => (registry.get? owner.kind).isNone
  | none => false

/-- Every node whose owner can be asked is legally placed. -/
def checkPlacements (registry : Registry) (nodes : List Node) : Except StructureError Unit :=
  nodes.forM fun node =>
    if ownerUnbound registry nodes node then .ok ()
    else Placement.check registry nodes (some node.id) node.kind node.payload node.scope

/-- The nodes of unregistered kinds, in order. -/
def unbound (registry : Registry) (nodes : List Node) : List Diagnostic :=
  nodes.filterMap fun node =>
    if registry.contains node.kind then none else some (.unknownKind node.id node.kind)

/-! ## Loading -/

def structural : Except StructureError α → Except LoadError α
  | .ok value => .ok value
  | .error error => .error (.structural error)

def naming : Except NamingError α → Except LoadError α
  | .ok value => .ok value
  | .error error => .error (.naming error)

/-- **The store of a document.** New ids come from the given source, and new
sequence numbers follow the highest one. -/
def load (document : Document) (registry : Registry) (ids : IdSource) :
    Except LoadError Loaded := do
  let nodeIds := document.nodes.map NodeRecord.id
  structural document.checkIds
  let nodes ← structural (document.nodes.mapM (nodeOf nodeIds))
  structural (checkCycles nodes)
  structural (document.checkReferences nodeIds)
  let vars ← naming (NameTable.ofList document.vars)
  let assistants ← naming (NameTable.ofList document.assistants)
  structural (checkPlacements registry nodes)
  return ⟨.ofGraph ⟨nodes, document.edges, vars, assistants⟩ registry ids,
    unbound registry nodes⟩

end Document

end StepGraph
