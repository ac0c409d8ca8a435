import StepGraph.Names.Assistant
import StepGraph.Step.Basic
import StepGraph.Step.Template

/-!
# The code of steps

Every step writes one or two fragments of script, each a line of its own.
Texts go through templates, keys and names are quoted, and every variable
and assistant that a step refers to has to be known.
-/

namespace StepGraph

/-- An operand's variable has to be known. -/
def Operand.check (operand : Operand) (vars : VariableTable) :
    Except ConfigurationError Unit :=
  match operand.reference? with
  | some name => if vars.isResolvable name then .ok () else .error (.unknownVariable name)
  | none => .ok ()

namespace Step

/-- A text that may be absent, as a template literal or `null`. -/
def renderOption (text : Option String) (vars : VariableTable) :
    Except ConfigurationError String :=
  match text with
  | some text => Template.render text vars
  | none => .ok "null"

/-- The members of a request's header object. -/
def renderHeaders (headers : Headers) (vars : VariableTable) :
    Except ConfigurationError String := do
  let members ← headers.entries.mapM fun (name, value) => do
    let value ← Template.render value vars
    return Text.quote name ++ ": " ++ value
  return ", ".intercalate members

/-- A statement that declares a step's output. -/
def declare (output : Output) (value : String) : String :=
  "var " ++ output.name ++ " = " ++ value ++ ";\n"

/-- **The code fragments of a step.** -/
def fragments (vars : VariableTable) (assistants : AssistantTable) :
    Step → Except ConfigurationError (List String)
  | sendText text => do
    let text ← Template.render text vars
    return ["await sendText(conversationId, " ++ text ++ ");\n"]
  | sendMedia url caption => do
    let caption ← renderOption caption vars
    let url ← Template.render url vars
    return ["await sendMedia(conversationId, " ++ url ++ ", " ++ caption ++ ");\n"]
  | httpRequest method url headers body output => do
    let headers ← renderHeaders headers vars
    let data ← renderOption body vars
    let url ← Template.render url vars
    return ("response = await http.request(\x7b method: " ++ Text.quote method.name
        ++ ", url: " ++ url ++ ", headers: \x7b " ++ headers ++ " \x7d, data: " ++ data
        ++ " \x7d);\n")
      :: (output.map fun output => declare output "response.data").toList
  | queryAssistant assistant prompt output =>
    match assistants.lookup assistant with
    | none => .error (.unknownAssistant assistant)
    | some assistant => do
      let prompt ← Template.render prompt vars
      return ["response = await http.post('/assistants/query', \x7b model: "
          ++ Text.quote assistant.model ++ ", personality: "
          ++ Text.quote assistant.personality ++ ", prompt: " ++ prompt ++ " \x7d);\n",
        declare output "response.data.reply"]
  | setVariable output value => do
    value.check vars
    return [declare output value.render]
  | storeValue key value => do
    value.check vars
    return ["await storage.set(contactId, " ++ Text.quote key ++ ", " ++ value.render ++ ");\n"]
  | loadValue key output =>
    .ok [declare output ("await storage.get(contactId, " ++ Text.quote key ++ ")")]
  | wait seconds =>
    .ok ["await clock.sleep(" ++ Text.natText (seconds.toNat * 1000) ++ ");\n"]
  | script code => .ok [if code.toList.getLast? = some '\n' then code else code ++ "\n"]

end Step

end StepGraph
