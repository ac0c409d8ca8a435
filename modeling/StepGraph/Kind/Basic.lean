import StepGraph.Graph.Containment
import StepGraph.Graph.Error
import StepGraph.Graph.Handle

/-!
# Kinds of nodes

A kind is everything that editing and compiling need to know about one sort
of node: what its configuration has to hold, which slots it declares, where
its edges lead and what script it writes. A new kind is a value of `Kind`;
what it leaves out has the common behaviour.
-/

namespace StepGraph

/-- Where an edge puts its target. -/
inductive Route where
  /-- Into a slot of the source. -/
  | slot (slot : Slot)
  /-- Next to the source, in the source's own scope. -/
  | sibling
  /-- To the top level. -/
  | root
  deriving DecidableEq, Repr

/-- The script of one declared slot, for the owner to put in its place. -/
structure SlotBody where
  slot : Slot
  code : String
  deriving DecidableEq, Repr

/-- The script of a slot, empty where there is none. -/
def bodyOf (bodies : List SlotBody) (slot : Slot) : String :=
  match bodies.find? (·.slot == slot) with
  | some body => body.code
  | none => ""

/-- Whether a configuration has a field that is not `null`. -/
def Payload.hasField (payload : Payload) (field : String) : Bool :=
  match payload.config.get? field with
  | some value => !value.isNull
  | none => false

/-- The first field that is missing is the fault. -/
def requireFields (node : Node) (fields : List String) : Except ConfigurationError Unit :=
  match fields.find? fun field => !node.payload.hasField field with
  | some field => .error (.missingField node.id field)
  | none => .ok ()

/-- Where the edges of most kinds lead: the primary ones to a sibling, the
secondary ones to the top level, and no others are there. -/
def siblingRoute (kind : String) : Handle → Except StructureError Route
  | .primary => .ok .sibling
  | .secondary => .ok .root
  | other => .error (.invalidHandle kind other.text)

/-- What editing and compiling know about a kind of node. -/
structure Kind where
  /-- The kind's own tag. -/
  tag : String
  /-- The fields that a configuration must have before the node compiles. -/
  requiredFields : List String := []
  validate : Node → Containment → Except ConfigurationError Unit :=
    fun node _ => requireFields node requiredFields
  /-- The slots that a node declares, in the order of their scripts. -/
  declaredSlots : Node → Containment → List Slot
  /-- The slot that a node opens on its owner. -/
  openedSlot : Payload → Option Slot := fun _ => none
  /-- Whether a node may open a slot on a node of this kind. -/
  acceptsOpenedSlot : Slot → Bool := fun _ => false
  /-- Where an edge from a handle leads. -/
  route : Handle → Except StructureError Route := siblingRoute tag
  /-- The script of a node, from the scripts of its slots. -/
  compile : Node → List SlotBody → Except ConfigurationError String

end StepGraph
