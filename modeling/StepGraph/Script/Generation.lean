import StepGraph.Kind.Registry
import StepGraph.Script.Frame

/-!
# Generating scripts

The generator walks the containment of a graph from the top level down. A
node of a registered kind gets its script from the kind, which receives the
scripts of the slots it declares; a node of an unregistered kind is skipped
with everything inside it. Beside the script stands the record of the
nodes that were visited, in the order in which they were done with, and the
diagnostics are read off that record.
-/

namespace StepGraph

/-- A node that did not get into a script. -/
inductive Diagnostic where
  | unknownKind (node kind : String)
  | rejected (error : ConfigurationError)
  deriving DecidableEq, Repr

def Diagnostic.message : Diagnostic → String
  | unknownKind node kind =>
    "Node '" ++ node ++ "' has an unregistered kind '" ++ kind ++ "' and was skipped"
  | rejected error => "Node was skipped: " ++ error.message

/-- What became of a node that the generator visited. -/
inductive Visit where
  /-- No kind is registered for the node. -/
  | skipped (node : Node)
  /-- The kind could not compile the node with these slots. -/
  | rejected (node : Node) (bodies : List SlotBody) (error : ConfigurationError)
  /-- The kind compiled the node with these slots. -/
  | compiled (node : Node) (bodies : List SlotBody) (code : String)

/-- The diagnostic of a visit; a compiled node has none. -/
def Visit.diagnostic? : Visit → Option Diagnostic
  | skipped node => some (.unknownKind node.id node.kind)
  | rejected _ _ error => some (.rejected error)
  | compiled _ _ _ => none

/-- Script, and the visits that made it. -/
structure Fragment where
  code : String
  visits : List Visit

namespace Fragment

/-- Fragments one after the other. -/
def join (fragments : List Fragment) : Fragment :=
  ⟨String.join (fragments.map code), fragments.flatMap visits⟩

end Fragment

/-- A character of a label inside a comment, where no line may end. -/
def commentChar (c : Char) : Char :=
  if c = '\n' ∨ c = '\r' then ' ' else c

/-- The comment line in front of a node's script; none for an empty
label. -/
def commentLine (label : String) : String :=
  if label.isEmpty then ""
  else "// " ++ String.ofList (label.toList.map commentChar) ++ "\n"

namespace Generation

/-- What the generator works with. -/
structure Setting where
  registry : Registry
  containment : Containment
  comments : Bool

/-- The fragment of a node whose slots have these fragments. -/
def assemble (setting : Setting) (node : Node) (kind : Kind)
    (slots : List (Slot × Fragment)) : Fragment :=
  let bodies := slots.map fun slot => ⟨slot.1, slot.2.code⟩
  let visits := slots.flatMap fun slot => slot.2.visits
  match kind.compile node bodies with
  | .ok code =>
    ⟨(if setting.comments then commentLine node.payload.label else "") ++ code,
      visits ++ [.compiled node bodies code]⟩
  | .error error => ⟨"", visits ++ [.rejected node bodies error]⟩

/-- The fragment of a node, with what is nested in it down to a depth. -/
def nodeFragment (setting : Setting) : Nat → Node → Fragment
  | 0, _ => ⟨"", []⟩
  | depth + 1, node =>
    match setting.registry.get? node.kind with
    | none => ⟨"", [.skipped node]⟩
    | some kind =>
      assemble setting node kind <|
        (kind.declaredSlots node setting.containment).map fun slot =>
          (slot, .join ((setting.containment.slotChildren node.id slot).map
            (nodeFragment setting depth)))

/-- The fragment of the whole graph. Nothing is nested deeper than there
are nodes. -/
def graphFragment (setting : Setting) : Fragment :=
  .join (setting.containment.root.map
    (nodeFragment setting setting.containment.nodes.length))

end Generation

/-- A generated script: what stands between preamble and postamble, and the
visits that made it. -/
structure Script where
  body : String
  visits : List Visit

namespace Script

/-- The script of a graph's containment. -/
def generate (registry : Registry) (containment : Containment) (comments : Bool) : Script :=
  let fragment := Generation.graphFragment ⟨registry, containment, comments⟩
  ⟨fragment.code, fragment.visits⟩

/-- The nodes that did not get into the script. -/
def diagnostics (script : Script) : List Diagnostic :=
  script.visits.filterMap Visit.diagnostic?

/-- The whole text of a script. -/
def text (script : Script) : String :=
  preamble ++ script.body ++ postamble

end Script

end StepGraph
