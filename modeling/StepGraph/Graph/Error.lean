import StepGraph.Names.Error
import StepGraph.Text.Digits

/-!
# Refusals

An edit is refused for the structure it would make, for a name, or for a
configuration that is not complete. Each cause is a constructor that
carries what its message names; the wording is in the `message` functions.
-/

namespace StepGraph

/-- Why a change would break the structure of a graph. -/
inductive StructureError where
  | scopeNotFound (owner : String)
  | undeclaredSlot (owner kind slot : String)
  | nodeNotFound (id : String)
  | edgeNotFound (id : String)
  | duplicateId (id : String)
  | duplicateCase (switch value : String)
  | cyclicContainment (node owner : String)
  | invalidHandle (kind handle : String)
  | invalidCaseScope (reason : String)
  deriving DecidableEq, Repr

def StructureError.message : StructureError → String
  | scopeNotFound owner => "Scope owner '" ++ owner ++ "' does not exist"
  | undeclaredSlot owner kind slot =>
    "Node '" ++ owner ++ "' (" ++ kind ++ ") does not declare a '" ++ slot ++ "' slot"
  | nodeNotFound id => "Node '" ++ id ++ "' not found"
  | edgeNotFound id => "Edge '" ++ id ++ "' not found"
  | duplicateId id => "Id '" ++ id ++ "' is already in use"
  | duplicateCase switch value =>
    "Switch '" ++ switch ++ "' already has a case for value '" ++ value ++ "'"
  | cyclicContainment node owner =>
    "Placing node '" ++ node ++ "' under '" ++ owner ++ "' would create a containment cycle"
  | invalidHandle kind handle =>
    "Edge slot '" ++ handle ++ "' is not valid on a '" ++ kind ++ "' source node"
  | invalidCaseScope reason => "Case node must be attached to a switch case slot: " ++ reason

/-- Why a node's configuration is not complete enough to compile. -/
inductive ConfigurationError where
  | invalidConfig (node kind reason : String)
  | missingField (node field : String)
  | noComparisons (node : String)
  | connectorMismatch (node : String) (comparisons connectors : Nat)
  | noCases (node : String)
  | unknownVariable (name : String)
  | unknownAssistant (name : String)
  deriving DecidableEq, Repr

def ConfigurationError.message : ConfigurationError → String
  | invalidConfig node kind reason =>
    "Node '" ++ node ++ "' (" ++ kind ++ ") has an invalid configuration: " ++ reason
  | missingField node field =>
    "Node '" ++ node ++ "' is missing the required field '" ++ field ++ "'"
  | noComparisons node => "Conditional '" ++ node ++ "' has no comparisons"
  | connectorMismatch node comparisons connectors =>
    "Conditional '" ++ node ++ "' has " ++ Text.natText comparisons ++ " comparisons but "
      ++ Text.natText connectors ++ " logical connectors"
  | noCases node => "Switch '" ++ node ++ "' has no cases"
  | unknownVariable name => "Template references unknown variable '" ++ name ++ "'"
  | unknownAssistant name => "Assistant '" ++ name ++ "' is not registered"

/-- Why an edit of a graph is refused. -/
inductive EditError where
  | structural (error : StructureError)
  | naming (error : NamingError)
  | configuration (error : ConfigurationError)
  deriving DecidableEq, Repr

def EditError.message : EditError → String
  | structural error => error.message
  | naming error => error.message
  | configuration error => error.message

end StepGraph
