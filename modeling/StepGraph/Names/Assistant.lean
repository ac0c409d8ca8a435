import StepGraph.Names.Table
import StepGraph.Text.Blank

/-!
# Assistants

An assistant is a remote model with a personality that query steps refer
to by name. The name never enters a script, so all it needs is a character
that is not blank.
-/

namespace StepGraph

/-- A remote model, its personality, and the name it is asked by. -/
structure Assistant where
  name : String
  model : String
  personality : String
  deriving DecidableEq, Repr

instance : Named Assistant where
  name := Assistant.name
  check a :=
    if (Text.trim a.name.toList).isEmpty then .error (.invalidIdentifier a.name) else .ok ()
  taken := .assistantExists

abbrev AssistantTable := NameTable Assistant

end StepGraph
