import StepGraph.Document.Load
import StepGraph.Json.Printer
import StepGraph.Json.Reader

/-!
# Documents as text

A document is written as JSON over lines, its fields in declared order; a
node at the top level has no parent field. Reading is more generous: a
record may be an array of its fields, fields that have a default may be
absent, and fields that no record has are left aside unread.
-/

namespace StepGraph

/-! ## Writing -/

def Position.toJson (position : Position) : Json :=
  .object [("x", .ofBinary64 position.x), ("y", .ofBinary64 position.y)]

def Payload.toJson (payload : Payload) : Json :=
  .object [("label", .string payload.label), ("code", .array (payload.code.map .string)),
    ("config", payload.config)]

def NodeRecord.toJson (record : NodeRecord) : Json :=
  .object ([("id", .string record.id), ("kind", .string record.kind)]
    ++ (record.parentId.map fun text => ("parentId", Json.string text)).toList
    ++ [("sequence", .ofNat record.sequence), ("position", record.position.toJson),
      ("payload", record.payload.toJson)])

def Edge.toJson (edge : Edge) : Json :=
  .object [("id", .string edge.id), ("sourceNodeId", .string edge.source),
    ("targetNodeId", .string edge.target), ("sourceSlot", .string edge.handle.text)]

def Variable.toJson (v : Variable) : Json :=
  .object [("name", .string v.name), ("displayName", .string v.displayName),
    ("producingNodeId", .string v.producer)]

def Assistant.toJson (a : Assistant) : Json :=
  .object [("name", .string a.name), ("model", .string a.model),
    ("personality", .string a.personality)]

namespace Document

def toJson (document : Document) : Json :=
  .object [("nodes", .array (document.nodes.map NodeRecord.toJson)),
    ("edges", .array (document.edges.map Edge.toJson)),
    ("variables", .array (document.vars.map Variable.toJson)),
    ("assistants", .array (document.assistants.map Assistant.toJson))]

/-- **The text of a document.** -/
def text (document : Document) : String :=
  document.toJson.pretty 0

end Document

/-! ## Reading -/

open Json (Tree)

/-- A field that may be absent but not `null`. -/
def Json.Tree.orDefault (value : α) (read : Tree → Option α) : Option Tree → Option α
  | some tree => read tree
  | none => some value

/-- A text that may be absent or `null`. -/
def Json.Tree.optionalString? : Option Tree → Option (Option String)
  | none => some none
  | some .null => some none
  | some tree => tree.string?.map some

/-- A configuration begins at the fifth level of its document, and a
document has 127 levels. -/
def configLevels : Nat := 127 - 4

def Position.ofTree? (tree : Tree) : Option Position := do
  let [x, y] ← tree.fields? ["x", "y"] | none
  return ⟨← (← (← x).leaf?).binary64?, ← (← (← y).leaf?).binary64?⟩

def Payload.ofTree? (tree : Tree) : Option Payload := do
  let [label, code, config] ← tree.fields? ["label", "code", "config"] | none
  return ⟨← Tree.orDefault "" Tree.string? label,
    ← Tree.orDefault [] (Tree.list? Tree.string?) code,
    ← Tree.orDefault .null (Tree.json? configLevels) config⟩

def NodeRecord.ofTree? (tree : Tree) : Option NodeRecord := do
  let [id, kind, parentId, sequence, position, payload] ←
    tree.fields? ["id", "kind", "parentId", "sequence", "position", "payload"] | none
  return ⟨← (← id).string?, ← (← kind).string?, ← Tree.optionalString? parentId,
    ← Tree.orDefault 0 (fun tree => tree.leaf?.bind Json.natural?) sequence,
    ← Tree.orDefault .origin Position.ofTree? position,
    ← Tree.orDefault .empty Payload.ofTree? payload⟩

def Edge.ofTree? (tree : Tree) : Option Edge := do
  let [id, source, target, handle] ←
    tree.fields? ["id", "sourceNodeId", "targetNodeId", "sourceSlot"] | none
  return ⟨← (← id).string?, ← (← source).string?, ← (← target).string?,
    .ofText (← (← handle).string?)⟩

def Variable.ofTree? (tree : Tree) : Option Variable := do
  let [name, displayName, producer] ←
    tree.fields? ["name", "displayName", "producingNodeId"] | none
  return ⟨← (← name).string?, ← (← displayName).string?, ← (← producer).string?⟩

def Assistant.ofTree? (tree : Tree) : Option Assistant := do
  let [name, model, personality] ← tree.fields? ["name", "model", "personality"] | none
  return ⟨← (← name).string?, ← (← model).string?, ← (← personality).string?⟩

namespace Document

def ofTree? (tree : Tree) : Option Document := do
  let [nodes, edges, vars, assistants] ←
    tree.fields? ["nodes", "edges", "variables", "assistants"] | none
  return ⟨← Tree.orDefault [] (Tree.list? NodeRecord.ofTree?) nodes,
    ← Tree.orDefault [] (Tree.list? Edge.ofTree?) edges,
    ← Tree.orDefault [] (Tree.list? Variable.ofTree?) vars,
    ← Tree.orDefault [] (Tree.list? Assistant.ofTree?) assistants⟩

/-- **The document that a text spells.** -/
def ofText? (text : String) : Option Document :=
  (Tree.read? text).bind ofTree?

/-- The store of the document that a text spells. -/
def loadText (text : String) (registry : Registry) (ids : IdSource) :
    Except LoadError Loaded :=
  match ofText? text with
  | some document => document.load registry ids
  | none => .error .unreadable

end Document

/-- The text of the store's graph. -/
def Store.text (store : Store) : String :=
  (Document.ofGraph store.graph).text

end StepGraph
