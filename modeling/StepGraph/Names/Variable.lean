import StepGraph.Names.Table
import StepGraph.Script.Identifier

/-!
# Variables

A variable is a value that one node produces and later steps use by name.
Its name goes into the script as it is.
-/

namespace StepGraph

/-- A named value and the node that produces it. -/
structure Variable where
  name : String
  displayName : String
  producer : String
  deriving DecidableEq, Repr

/-- A variable's name is an identifier that nothing else has reserved. -/
instance : Named Variable where
  name := Variable.name
  check v :=
    if !Script.isIdentifier v.name then .error (.invalidIdentifier v.name)
    else if Script.isReserved v.name then .error (.reservedName v.name)
    else .ok ()
  taken := .variableExists

abbrev VariableTable := NameTable Variable

namespace VariableTable

/-- The variables that a node produces. -/
def producedBy (table : VariableTable) (node : String) : List Variable :=
  table.entries.filter (·.producer == node)

/-- Whether a template or an operand may refer to a name. -/
def isResolvable (table : VariableTable) (name : String) : Bool :=
  table.contains name || Script.isAmbient name

end VariableTable

end StepGraph
