import StepGraph.Condition.Comparison
import StepGraph.Graph.Error
import StepGraph.Graph.Node

/-!
# Configurations of control nodes

The configurations of the kinds that branch: comparisons and connectors of
a conditional, the operand of a switch, the value of a case.
-/

namespace StepGraph

/-- The configuration of a conditional. -/
structure ConditionalConfig where
  comparisons : List Comparison
  connectors : List Connector
  deriving DecidableEq, Repr

/-- The configuration of a switch. -/
structure SwitchConfig where
  operand : Operand
  deriving DecidableEq, Repr

/-- The configuration of a case. -/
structure CaseConfig where
  value : String
  deriving DecidableEq, Repr

/-- The connectors may be absent. -/
def ConditionalConfig.decode : Json → Except Json.DecodeError ConditionalConfig
  | .object members => do
    let comparisons ← Json.present members "comparisons" (Json.decodeList Comparison.decode)
    let connectors ← Json.present members "connectors" (Json.decodeList Connector.decode)
    let comparisons ← Json.required "comparisons" comparisons
    return ⟨comparisons, connectors.getD []⟩
  | .array items => do
    let comparisons ← Json.item items 0 "struct ConditionalConfig with 2 elements"
      (Json.decodeList Comparison.decode)
    let connectors ← items[1]?.mapM (Json.decodeList Connector.decode)
    Json.noMoreThan 2 items
    return ⟨comparisons, connectors.getD []⟩
  | other => .error (.wrongType other "struct ConditionalConfig")

def SwitchConfig.decode : Json → Except Json.DecodeError SwitchConfig
  | .object members => do
    let operand ← Json.present members "variable" Operand.decode
    let operand ← Json.required "variable" operand
    return ⟨operand⟩
  | .array items => do
    let operand ← Json.item items 0 "struct SwitchConfig with 1 element" Operand.decode
    Json.noMoreThan 1 items
    return ⟨operand⟩
  | other => .error (.wrongType other "struct SwitchConfig")

def CaseConfig.decode : Json → Except Json.DecodeError CaseConfig
  | .object members => do
    let value ← Json.present members "value" Json.decodeString
    let value ← Json.required "value" value
    return ⟨value⟩
  | .array items => do
    let value ← Json.item items 0 "struct CaseConfig with 1 element" Json.decodeString
    Json.noMoreThan 1 items
    return ⟨value⟩
  | other => .error (.wrongType other "struct CaseConfig")

/-- The configuration of a node, read as its kind wants it. -/
def Node.config (node : Node) (decode : Json → Except Json.DecodeError α) :
    Except ConfigurationError α :=
  match decode node.payload.config with
  | .ok config => .ok config
  | .error problem => .error (.invalidConfig node.id node.kind problem.message)

end StepGraph
