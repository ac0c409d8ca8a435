import StepGraph.Graph.Node
import StepGraph.Step.Code

/-!
# Steps as configurations

A step is stored as the configuration of its node and can be read back
from there. It is an object with the tag `step` and the step's fields, or
an array that begins with the tag; fields that may be absent are written as
`null`. Here only the step counts, not why a value is none.
-/

namespace StepGraph

/-! ## Writing -/

/-- A text that may be absent. -/
def Json.ofOption (write : α → Json) : Option α → Json
  | some value => write value
  | none => .null

def Output.toJson (output : Output) : Json :=
  .object [("displayName", .string output.displayName), ("name", .string output.name)]

def Headers.toJson (headers : Headers) : Json :=
  .object (headers.entries.map fun (name, value) => (name, .string value))

namespace Step

/-- A step as a configuration, its members sorted by name. -/
def toJson : Step → Json
  | sendText text => .object [("step", .string "sendText"), ("text", .string text)]
  | sendMedia url caption =>
    .object [("caption", .ofOption .string caption), ("step", .string "sendMedia"),
      ("url", .string url)]
  | httpRequest method url headers body output =>
    .object [("body", .ofOption .string body), ("headers", headers.toJson),
      ("method", .string method.name), ("output", .ofOption Output.toJson output),
      ("step", .string "httpRequest"), ("url", .string url)]
  | queryAssistant assistant prompt output =>
    .object [("assistant", .string assistant), ("output", output.toJson),
      ("prompt", .string prompt), ("step", .string "queryAssistant")]
  | setVariable output value =>
    .object [("output", output.toJson), ("step", .string "setVariable"),
      ("value", value.toJson)]
  | storeValue key value =>
    .object [("key", .string key), ("step", .string "storeValue"), ("value", value.toJson)]
  | loadValue key output =>
    .object [("key", .string key), ("output", output.toJson), ("step", .string "loadValue")]
  | wait seconds =>
    .object [("seconds", .ofNat seconds.toNat), ("step", .string "wait")]
  | script code => .object [("code", .string code), ("step", .string "script")]

/-- **The payload of a step's node**: label, code and the step itself. -/
def payload (step : Step) (vars : VariableTable) (assistants : AssistantTable) :
    Except ConfigurationError Payload := do
  let code ← step.fragments vars assistants
  return ⟨step.label, code, step.toJson⟩

end Step

/-! ## Reading -/

/-- The fields of a record, in declared order, each absent or present. -/
def Json.fields? (names : List String) : Json → Option (List (Option Json))
  | .object members => some (names.map fun name => members.lookup name)
  | .array items => itemFields names.length items
  | _ => none

/-- A field that may be absent or `null`. -/
def Json.optional? (read : Json → Option α) : Option Json → Option (Option α)
  | none => some none
  | some .null => some none
  | some value => (read value).map some

def Output.ofJson? (value : Json) : Option Output := do
  let [name, displayName] ← value.fields? ["name", "displayName"] | none
  return ⟨← (← name).string?, ← (← displayName).string?⟩

def Headers.ofJson? : Json → Option Headers
  | .object members => do
    let entries ← members.mapM fun (name, value) => value.string?.map (name, ·)
    return Headers.ofList entries
  | _ => none

def Operand.ofJson? (value : Json) : Option Operand :=
  (Operand.decodeInStep value).toOption

/-- As in every enumeration inside a step, an empty object counts as no
data. -/
def HttpMethod.ofJson? (value : Json) : Option HttpMethod :=
  (Json.decodeVariant Json.isVacant HttpMethod.named value).toOption

/-- A number of seconds of at most 32 bits. -/
def Json.seconds? (value : Json) : Option UInt32 := do
  let n ← value.natural?
  if n < UInt32.size then some n.toUInt32 else none

namespace Step

/-- The fields of a step behind its tag, which is a text. -/
def tagged? : Json → Option (String × Json)
  | .object members =>
    match members.lookup "step" with
    | some (.string tag) => some (tag, .object members)
    | _ => none
  | .array (.string tag :: items) => some (tag, .array items)
  | _ => none

def readSendText (fields : Json) : Option Step := do
  let [text] ← fields.fields? ["text"] | none
  return sendText (← (← text).string?)

def readSendMedia (fields : Json) : Option Step := do
  let [url, caption] ← fields.fields? ["url", "caption"] | none
  return sendMedia (← (← url).string?) (← Json.optional? Json.string? caption)

def readHttpRequest (fields : Json) : Option Step := do
  let [method, url, headers, body, output] ←
    fields.fields? ["method", "url", "headers", "body", "output"] | none
  let headers ← match headers with
    | some value => Headers.ofJson? value
    | none => some Headers.empty
  return httpRequest (← HttpMethod.ofJson? (← method)) (← (← url).string?) headers
    (← Json.optional? Json.string? body) (← Json.optional? Output.ofJson? output)

def readQueryAssistant (fields : Json) : Option Step := do
  let [assistant, prompt, output] ← fields.fields? ["assistant", "prompt", "output"] | none
  return queryAssistant (← (← assistant).string?) (← (← prompt).string?)
    (← Output.ofJson? (← output))

def readSetVariable (fields : Json) : Option Step := do
  let [output, value] ← fields.fields? ["output", "value"] | none
  return setVariable (← Output.ofJson? (← output)) (← Operand.ofJson? (← value))

def readStoreValue (fields : Json) : Option Step := do
  let [key, value] ← fields.fields? ["key", "value"] | none
  return storeValue (← (← key).string?) (← Operand.ofJson? (← value))

def readLoadValue (fields : Json) : Option Step := do
  let [key, output] ← fields.fields? ["key", "output"] | none
  return loadValue (← (← key).string?) (← Output.ofJson? (← output))

def readWait (fields : Json) : Option Step := do
  let [seconds] ← fields.fields? ["seconds"] | none
  return wait (← (← seconds).seconds?)

def readScript (fields : Json) : Option Step := do
  let [code] ← fields.fields? ["code"] | none
  return script (← (← code).string?)

/-- How the fields behind each tag are read. -/
def readers : List (String × (Json → Option Step)) :=
  [("sendText", readSendText), ("sendMedia", readSendMedia),
    ("httpRequest", readHttpRequest), ("queryAssistant", readQueryAssistant),
    ("setVariable", readSetVariable), ("storeValue", readStoreValue),
    ("loadValue", readLoadValue), ("wait", readWait), ("script", readScript)]

/-- **The step that a value spells.** -/
def ofJson? (value : Json) : Option Step := do
  let (tag, fields) ← tagged? value
  (← readers.lookup tag) fields

end Step

end StepGraph
