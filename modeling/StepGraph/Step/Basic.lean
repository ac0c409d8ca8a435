import StepGraph.Condition.Operand
import StepGraph.Keyed

/-!
# Steps

The leaf steps of an automation, each with what a dialog collects for it.
A step may introduce a variable for later steps.
-/

namespace StepGraph

/-- The variable that a step introduces. -/
structure Output where
  name : String
  displayName : String
  deriving DecidableEq, Repr

/-- The method of a request. -/
inductive HttpMethod where
  | get
  | post
  | put
  | patch
  | delete
  deriving DecidableEq, Repr

namespace HttpMethod

def name : HttpMethod → String
  | get => "GET"
  | post => "POST"
  | put => "PUT"
  | patch => "PATCH"
  | delete => "DELETE"

def named : List (String × HttpMethod) :=
  [("GET", get), ("POST", post), ("PUT", put), ("PATCH", patch), ("DELETE", delete)]

end HttpMethod

/-- The headers of a request, sorted by name, one of a name. -/
structure Headers where
  entries : List (String × String)
  sorted : Keyed.Sorted entries
  deriving DecidableEq

namespace Headers

def empty : Headers := ⟨[], .nil⟩

/-- The headers of a list; of several with one name the last stays. -/
def ofList (entries : List (String × String)) : Headers :=
  ⟨Keyed.ofList entries, Keyed.sorted_ofList entries⟩

/-- Headers that are sorted already stay as they are. -/
theorem ofList_entries (headers : Headers) : ofList headers.entries = headers := by
  obtain ⟨entries, sorted⟩ := headers
  simp only [ofList, Keyed.ofList_of_sorted sorted]

end Headers

/-! ## The steps -/

/-- One leaf step of an automation. -/
inductive Step where
  /-- Sends a text, in which placeholders insert earlier values. -/
  | sendText (text : String)
  | sendMedia (url : String) (caption : Option String)
  | httpRequest (method : HttpMethod) (url : String) (headers : Headers)
      (body : Option String) (output : Option Output)
  /-- Asks a registered assistant and stores its reply. -/
  | queryAssistant (assistant prompt : String) (output : Output)
  | setVariable (output : Output) (value : Operand)
  | storeValue (key : String) (value : Operand)
  | loadValue (key : String) (output : Output)
  | wait (seconds : UInt32)
  /-- Script that a person wrote, on lines of its own. -/
  | script (code : String)
  deriving DecidableEq

namespace Step

/-- The variable that a step introduces. -/
def output? : Step → Option Output
  | httpRequest _ _ _ _ output => output
  | queryAssistant _ _ output => some output
  | setVariable output _ => some output
  | loadValue _ output => some output
  | _ => none

/-- The label that a step's node gets. -/
def label : Step → String
  | sendText _ => "Send text"
  | sendMedia _ _ => "Send media"
  | httpRequest method url _ _ _ => method.name ++ " " ++ url
  | queryAssistant assistant _ _ => "Ask " ++ assistant
  | setVariable output _ => "Set " ++ output.displayName
  | storeValue key _ => "Store " ++ key
  | loadValue key _ => "Load " ++ key
  | wait seconds => "Wait " ++ Text.natText seconds.toNat ++ "s"
  | script _ => "Script"

end Step

end StepGraph
