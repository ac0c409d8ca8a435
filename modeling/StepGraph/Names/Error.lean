/-!
# Refused names

Why a variable or an assistant cannot be registered under a name.
-/

namespace StepGraph

/-- Why a name is refused. -/
inductive NamingError where
  | variableExists (name : String)
  | assistantExists (name : String)
  | invalidIdentifier (name : String)
  | reservedName (name : String)
  deriving DecidableEq, Repr

def NamingError.message : NamingError → String
  | variableExists name => "A variable named '" ++ name ++ "' already exists"
  | assistantExists name => "An assistant named '" ++ name ++ "' already exists"
  | invalidIdentifier name => "'" ++ name ++ "' is not a valid script identifier"
  | reservedName name => "'" ++ name ++ "' is reserved by the script runtime"

end StepGraph
