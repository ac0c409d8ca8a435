import StepGraph.Graph.Basic
import StepGraph.Kind.Registry

/-!
# Placements

Two things can be wrong with the place that a node is given. The scope may
be none that the node can have: its owner has to declare the slot, and a
node that opens a slot sits in a fresh slot of that name, on an owner that
accepts it. Or the node may come to lie inside itself. Both are decided on
the nodes as they are, with the node that moves taken out.
-/

namespace StepGraph

/-- The list without the node that moves. -/
def withoutMoving (nodes : List Node) (moving : Option String) : List Node :=
  nodes.filter fun node => some node.id != moving

namespace Placement

/-- Where a node that opens a slot may be: in a slot of that name, which
its owner accepts and does not declare yet. -/
def checkOpening (slot : Slot) (scope : Scope) (owner : Node) (ownerKind : Kind)
    (declared : List Slot) : Except StructureError Unit :=
  if scope.slot ≠ slot then
    .error (.invalidCaseScope
      (slot.text ++ " was placed in the " ++ scope.slot.text ++ " slot of '" ++ owner.id ++ "'"))
  else if !ownerKind.acceptsOpenedSlot slot then
    .error (.undeclaredSlot owner.id owner.kind scope.slot.text)
  else if declared.contains slot then
    let value := match slot with
      | .caseBranch value => value
      | other => other.text
    .error (.duplicateCase owner.id value)
  else .ok ()

/-- Where a node that opens no slot may be: in a declared slot that is no
case. -/
def checkPlain (scope : Scope) (owner : Node) (declared : List Slot) :
    Except StructureError Unit :=
  if scope.slot.isCase then
    .error (.invalidCaseScope
      ("only case nodes may occupy the " ++ scope.slot.text ++ " slot of '" ++ owner.id ++ "'"))
  else if !declared.contains scope.slot then
    .error (.undeclaredSlot owner.id owner.kind scope.slot.text)
  else .ok ()

/-- Whether a node may be in a scope whose owner is known. -/
def checkOwned (registry : Registry) (others : List Node) (opened : Option Slot)
    (scope : Scope) (owner : Node) : Except StructureError Unit :=
  match registry.get? owner.kind with
  | none => .error (.undeclaredSlot owner.id owner.kind scope.slot.text)
  | some ownerKind =>
    let declared := ownerKind.declaredSlots owner ⟨others⟩
    match opened with
    | some slot => checkOpening slot scope owner ownerKind declared
    | none => checkPlain scope owner declared

/-- **Whether a node may be placed**: a node of this kind and payload in
this scope, or at the top level, among these nodes. `moving` is the node's
own id where it is one of them already. -/
def check (registry : Registry) (nodes : List Node) (moving : Option String)
    (kind : String) (payload : Payload) (scope : Option Scope) :
    Except StructureError Unit :=
  let opened := (registry.get? kind).bind fun k => k.openedSlot payload
  let others := withoutMoving nodes moving
  match scope with
  | none =>
    match opened with
    | some slot => .error (.invalidCaseScope (slot.text ++ " cannot be placed at the top level"))
    | none => .ok ()
  | some scope =>
    match others.find? (·.id == scope.owner) with
    | none => .error (.scopeNotFound scope.owner)
    | some owner => checkOwned registry others opened scope owner

/-! ## Circles -/

/-- Whether the chain of owners from a node on meets an id, or is longer
than the given number of steps. -/
def chainMeets (graph : Graph) (id : String) : Nat → Option String → Bool
  | _, none => false
  | 0, some _ => true
  | steps + 1, some owner =>
    owner == id || chainMeets graph id steps (graph.ownerOf? owner)

/-- A node may not come to lie inside itself. -/
def checkAcyclic (graph : Graph) (id : String) (scope : Option Scope) :
    Except StructureError Unit :=
  match scope with
  | none => .ok ()
  | some scope =>
    if chainMeets graph id (graph.nodes.length + 1) (some scope.owner) then
      .error (.cyclicContainment id scope.owner)
    else .ok ()

end Placement

end StepGraph
