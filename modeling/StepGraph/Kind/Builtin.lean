import StepGraph.Kind.Basic
import StepGraph.Kind.Config

/-!
# The built-in kinds

Five kinds are always there. An action writes its code fragments, a
conditional and a switch branch, a case is one way through a switch, and a
group is a mere container. A case opens the slot it sits in: its value is a
slot of the switch as long as the case is there.
-/

namespace StepGraph

/-- The kinds that are always there. -/
inductive Builtin where
  | action
  | conditional
  | switch
  | caseNode
  | group
  deriving DecidableEq, Repr

/-- A script on lines of its own: a line feed closes one that is not empty
and does not end with a line feed. -/
def block (code : String) : String :=
  if code.isEmpty || code.toList.getLast? = some '\n' then code else code ++ "\n"

/-- Where the edges of a container lead: the primary ones into its body. -/
def bodyRoute (kind : String) : Handle → Except StructureError Route
  | .primary => .ok (.slot .body)
  | .secondary => .ok .root
  | other => .error (.invalidHandle kind other.text)

namespace Builtin

def all : List Builtin :=
  [action, conditional, switch, caseNode, group]

def tag : Builtin → String
  | action => "action"
  | conditional => "conditional"
  | switch => "switch"
  | caseNode => "case"
  | group => "group"

/-- The built-in kind of a tag. -/
def ofTag? (tag : String) : Option Builtin :=
  all.find? (·.tag == tag)

/-! ## Actions -/

/-- An action needs at least one fragment of code. -/
def validateAction (node : Node) : Except ConfigurationError Unit :=
  if node.payload.code.isEmpty then .error (.missingField node.id "code") else .ok ()

def actionKind : Kind where
  tag := action.tag
  validate := fun node _ => validateAction node
  declaredSlots := fun _ _ => []
  compile := fun node _ => .ok (String.join node.payload.code)

/-! ## Conditionals -/

/-- The place of the first comparison that lacks a right operand it
needs. -/
def missingRight? (comparisons : List Comparison) : Option Nat :=
  comparisons.findIdx? fun c => !c.operator.isUnary && c.right.isNone

/-- A conditional needs comparisons, one connector fewer, and a right
operand wherever the operator takes one. -/
def validateConditional (node : Node) : Except ConfigurationError Unit := do
  requireFields node ["comparisons"]
  let config ← node.config ConditionalConfig.decode
  if config.comparisons.isEmpty then
    throw (.noComparisons node.id)
  if config.connectors.length ≠ config.comparisons.length - 1 then
    throw (.connectorMismatch node.id config.comparisons.length config.connectors.length)
  match missingRight? config.comparisons with
  | some place =>
    throw (.missingField node.id ("comparisons[" ++ Text.natText place ++ "].right"))
  | none => return ()

def compileConditional (node : Node) (bodies : List SlotBody) :
    Except ConfigurationError String := do
  let config ← node.config ConditionalConfig.decode
  return "if (" ++ renderCondition config.comparisons config.connectors ++ ") \x7b\n"
    ++ block (bodyOf bodies .ifBranch) ++ "\x7d else \x7b\n"
    ++ block (bodyOf bodies .elseBranch) ++ "\x7d\n"

def routeConditional : Handle → Except StructureError Route
  | .primary => .ok (.slot .ifBranch)
  | .secondary => .ok (.slot .elseBranch)
  | other => .error (.invalidHandle conditional.tag other.text)

def conditionalKind : Kind where
  tag := conditional.tag
  requiredFields := ["comparisons"]
  validate := fun node _ => validateConditional node
  declaredSlots := fun _ _ => [.ifBranch, .elseBranch]
  route := routeConditional
  compile := compileConditional

/-! ## Switches -/

/-- A switch needs an operand and at least one case. -/
def validateSwitch (node : Node) (containment : Containment) :
    Except ConfigurationError Unit := do
  requireFields node ["variable"]
  let _ ← node.config SwitchConfig.decode
  if (containment.caseSlots node.id).isEmpty then
    throw (.noCases node.id)

/-- The branch of one case. -/
def caseText (body : SlotBody) : String :=
  match body.slot with
  | .caseBranch value => "case " ++ Text.quote value ++ ":\n" ++ block body.code ++ "break;\n"
  | _ => ""

def compileSwitch (node : Node) (bodies : List SlotBody) :
    Except ConfigurationError String := do
  let config ← node.config SwitchConfig.decode
  return "switch (" ++ config.operand.render ++ ") \x7b\n"
    ++ String.join (bodies.map caseText)
    ++ "default:\n" ++ block (bodyOf bodies .defaultBranch) ++ "break;\n\x7d\n"

def routeSwitch : Handle → Except StructureError Route
  | .defaultBranch => .ok (.slot .defaultBranch)
  | .caseBranch value => .ok (.slot (.caseBranch value))
  | .secondary => .ok .root
  | .primary => .error (.invalidHandle switch.tag Handle.primary.text)

def switchKind : Kind where
  tag := switch.tag
  requiredFields := ["variable"]
  validate := validateSwitch
  declaredSlots := fun node containment => containment.caseSlots node.id ++ [.defaultBranch]
  acceptsOpenedSlot := Slot.isCase
  route := routeSwitch
  compile := compileSwitch

/-! ## Cases -/

/-- The value of a case, empty where there is no text. -/
def caseValue (payload : Payload) : String :=
  ((payload.config.get? "value").bind Json.string?).getD ""

def validateCase (node : Node) : Except ConfigurationError Unit := do
  requireFields node ["value"]
  let _ ← node.config CaseConfig.decode

def caseKind : Kind where
  tag := caseNode.tag
  requiredFields := ["value"]
  validate := fun node _ => validateCase node
  declaredSlots := fun _ _ => [.body]
  openedSlot := fun payload => some (.caseBranch (caseValue payload))
  route := bodyRoute caseNode.tag
  compile := fun _ bodies => .ok (bodyOf bodies .body)

/-! ## Groups -/

def groupKind : Kind where
  tag := group.tag
  declaredSlots := fun _ _ => [.body]
  route := bodyRoute group.tag
  compile := fun _ bodies => .ok (bodyOf bodies .body)

/-- What is known about a built-in kind. -/
def kind : Builtin → Kind
  | action => actionKind
  | conditional => conditionalKind
  | switch => switchKind
  | caseNode => caseKind
  | group => groupKind

end Builtin

end StepGraph
