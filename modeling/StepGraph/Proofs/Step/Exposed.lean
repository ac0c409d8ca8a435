import StepGraph.Proofs.Condition.OneLine
import StepGraph.Proofs.Script.Exposed

/-!
# What a step shows of its texts

The code of a step is scanned as script text. Every text that a person types
into a step, and everything a step takes from an assistant, goes into a
literal of its own; what stands outside the literals is fixed by the form of
the step: which fields it has, how many headers, the name of its output, and
the operands that are not texts (`Step.exposed`). So two steps of one form
show the same code, whatever their texts are (`Step.exposed?_payload`), and no
text becomes script.

Left aside are the parts of a step that a person writes as script: a script
step and a raw operand.
-/

namespace StepGraph

open Script (exposed? exposed?_append exposed?_append_plain exposed?_between exposed?_of_plain
  exposed?_quote isPlain_ofList)

/-! ## What is written as script -/

/-- Whether an operand is script that a person wrote. -/
def Operand.isRaw : Operand → Bool
  | raw _ => true
  | _ => false

/-- Whether some part of a step is script that a person wrote. -/
def Step.takesScript : Step → Bool
  | setVariable _ value => value.isRaw
  | storeValue _ value => value.isRaw
  | script _ => true
  | _ => false

/-! ## Forms -/

/-- Operands that differ at most in a text. -/
inductive Operand.SameForm : Operand → Operand → Prop where
  | text (value value' : String) : SameForm (.text value) (.text value')
  | same (operand : Operand) : SameForm operand operand

/-- Outputs under one name, or none on either side. -/
def Output.SameName (output output' : Option Output) : Prop :=
  output.map Output.name = output'.map Output.name

/-- **Steps of one form**: they are of one kind and agree in the method, in
which fields are there, in the number of headers, in the name of the output
and in what is no text: in operands other than texts, and two waits in their
seconds. Everything else may differ. -/
inductive Step.SameForm : Step → Step → Prop where
  | sendText (text text' : String) : SameForm (.sendText text) (.sendText text')
  | sendMedia (url url' : String) {caption caption' : Option String}
      (hcaption : caption.isSome = caption'.isSome) :
      SameForm (.sendMedia url caption) (.sendMedia url' caption')
  | httpRequest (method : HttpMethod) (url url' : String) {headers headers' : Headers}
      {body body' : Option String} {output output' : Option Output}
      (hheaders : headers.entries.length = headers'.entries.length)
      (hbody : body.isSome = body'.isSome) (houtput : Output.SameName output output') :
      SameForm (.httpRequest method url headers body output)
        (.httpRequest method url' headers' body' output')
  | queryAssistant (assistant assistant' prompt prompt' : String) {output output' : Output}
      (houtput : output.name = output'.name) :
      SameForm (.queryAssistant assistant prompt output)
        (.queryAssistant assistant' prompt' output')
  | setVariable {output output' : Output} {value value' : Operand}
      (houtput : output.name = output'.name) (hvalue : value.SameForm value') :
      SameForm (.setVariable output value) (.setVariable output' value')
  | storeValue (key key' : String) {value value' : Operand} (hvalue : value.SameForm value') :
      SameForm (.storeValue key value) (.storeValue key' value')
  | loadValue (key key' : String) {output output' : Output}
      (houtput : output.name = output'.name) :
      SameForm (.loadValue key output) (.loadValue key' output')
  | wait (seconds : UInt32) : SameForm (.wait seconds) (.wait seconds)

/-! ## Outside the literals -/

/-- What an operand shows outside literals. -/
def Operand.exposed : Operand → String
  | text _ => "''"
  | operand => operand.render

namespace Step

/-- What a text that may be absent shows. -/
def exposedOption (text : Option String) : String :=
  if text.isSome then "\x60\x60" else "null"

/-- What the members of a header object show, of which there are `count`. -/
def exposedHeaders (count : Nat) : String :=
  ", ".intercalate (List.replicate count "'': \x60\x60")

/-- **What the code fragments of a step show outside literals.** The method of
a request is quoted as well. -/
def exposed : Step → List String
  | sendText _ => ["await sendText(conversationId, \x60\x60);\n"]
  | sendMedia _ caption =>
    ["await sendMedia(conversationId, \x60\x60, " ++ exposedOption caption ++ ");\n"]
  | httpRequest _ _ headers body output =>
    ("response = await http.request(\x7b method: '', url: \x60\x60, headers: \x7b "
        ++ exposedHeaders headers.entries.length ++ " \x7d, data: " ++ exposedOption body
        ++ " \x7d);\n")
      :: (output.map fun output => declare output "response.data").toList
  | queryAssistant _ _ output =>
    ["response = await http.post('', \x7b model: '', personality: '', prompt: \x60\x60 \x7d);\n",
      declare output "response.data.reply"]
  | setVariable output value => [declare output value.exposed]
  | storeValue _ value => ["await storage.set(contactId, '', " ++ value.exposed ++ ");\n"]
  | loadValue _ output => [declare output "await storage.get(contactId, '')"]
  | wait seconds => ["await clock.sleep(" ++ Text.natText (seconds.toNat * 1000) ++ ");\n"]
  | script code => [code]

end Step

/-- Operands of one form show the same. -/
theorem Operand.SameForm.exposed_eq {value value' : Operand} (h : value.SameForm value') :
    value'.exposed = value.exposed := by
  cases h with
  | text => rfl
  | same => rfl

namespace Step

variable {step step' : Step} {vars vars' : VariableTable}
variable {assistants assistants' : AssistantTable} {payload payload' : Payload}

/-- **Steps of one form show the same.** -/
theorem SameForm.exposed_eq (h : SameForm step step') : step'.exposed = step.exposed := by
  have hdeclare {output output' : Output} (hname : output.name = output'.name) (value : String) :
      declare output' value = declare output value := by
    rw [declare, declare, hname]
  cases h with
  | sendText => rfl
  | sendMedia _ _ hcaption => rw [exposed, exposed, exposedOption, exposedOption, hcaption]
  | @httpRequest _ _ _ headers headers' body body' output output' hheaders hbody houtput =>
    have hdeclared : (output'.map fun output => declare output "response.data") =
        output.map fun output => declare output "response.data" := by
      cases output with
      | none =>
        cases output' with
        | none => rfl
        | some _ => cases houtput
      | some output =>
        cases output' with
        | none => cases houtput
        | some output' => exact congrArg some (hdeclare (Option.some.inj houtput) _)
    rw [exposed, exposed, exposedOption, exposedOption, hheaders, hbody, hdeclared]
  | queryAssistant _ _ _ _ houtput => rw [exposed, exposed, hdeclare houtput]
  | setVariable houtput hvalue => rw [exposed, exposed, hvalue.exposed_eq, hdeclare houtput]
  | storeValue _ _ hvalue => rw [exposed, exposed, hvalue.exposed_eq]
  | loadValue _ _ houtput => rw [exposed, exposed, hdeclare houtput]
  | wait => rfl

/-- Steps of one form are script in the same parts. -/
theorem SameForm.takesScript_eq (h : SameForm step step') :
    step'.takesScript = step.takesScript := by
  cases h with
  | setVariable _ hvalue | storeValue _ _ hvalue => cases hvalue <;> rfl
  | _ => rfl

/-- And their outputs have one name. -/
theorem SameForm.output? (h : SameForm step step') :
    Output.SameName step.output? step'.output? := by
  cases h with
  | httpRequest _ _ _ _ _ houtput => exact houtput
  | queryAssistant _ _ _ _ houtput | setVariable houtput _ | loadValue _ _ houtput =>
    exact congrArg some houtput
  | _ => rfl

end Step

/-! ## What the code shows -/

/-- A number is code without quotes. -/
theorem Text.exposed?_of_inNumber {text : String}
    (h : ∀ c ∈ text.toList, Text.inNumber c = true) : exposed? text = some text := by
  refine exposed?_of_plain _ (List.all_eq_true.mpr fun c hc => ?_)
  rw [Script.isPlain, Bool.and_eq_true, bne_iff_ne, bne_iff_ne]
  constructor <;> rintro rfl <;> exact absurd (h _ hc) (by decide)

/-- An operand whose variable is known shows no more than its form. -/
theorem Operand.exposed?_render {operand : Operand} {vars : VariableTable}
    (hvars : vars.WellFormed) (hraw : operand.isRaw = false) (h : operand.check vars = .ok ()) :
    exposed? operand.render = some operand.exposed := by
  cases operand with
  | reference name =>
    have hname : vars.isResolvable name = true := by
      cases hname : vars.isResolvable name with
      | true => rfl
      | false => simp [Operand.check, Operand.reference?, hname] at h
    exact Script.exposed?_identifier (VariableTable.isIdentifier_of_isResolvable hvars hname)
  | text value => exact exposed?_quote value
  | number value => exact Text.exposed?_of_inNumber (Operand.inNumber_numberText value)
  | raw expression => cases hraw

namespace Step

variable {step step' : Step} {vars vars' : VariableTable}
variable {assistants assistants' : AssistantTable} {payload payload' : Payload}

theorem exposed?_renderOption {text : Option String} {rendered : String}
    (hvars : vars.WellFormed) (h : renderOption text vars = .ok rendered) :
    exposed? rendered = some (exposedOption text) := by
  cases text with
  | none =>
    obtain rfl : "null" = rendered := Except.ok.inj h
    decide
  | some text => exact Template.exposed?_render hvars h

theorem exposed?_renderHeaders {headers : Headers} {rendered : String}
    (hvars : vars.WellFormed) (h : renderHeaders headers vars = .ok rendered) :
    exposed? rendered = some (exposedHeaders headers.entries.length) := by
  obtain ⟨hnames, rfl⟩ := renderHeaders_eq_ok_iff.mp h
  have hmembers : ∀ member ∈ headers.entries.map renderedHeader,
      exposed? member = some "'': \x60\x60" := by
    intro member hmember
    obtain ⟨entry, hentry, rfl⟩ := List.mem_map.mp hmember
    have hvalue := Template.render_eq_ok_iff.mpr ⟨hnames entry hentry, rfl⟩
    have hname := exposed?_append_plain (exposed?_quote entry.1) ": " (isPlain_ofList rfl)
    exact exposed?_append hname (Template.exposed?_render hvars hvalue)
  rw [Script.exposed?_intercalate (by decide) hmembers, List.length_map, exposedHeaders]

theorem exposed?_declare {output : Output} (houtput : Script.isIdentifier output.name = true)
    {value shown : String} (h : exposed? value = some shown) :
    exposed? (declare output value) = some (declare output shown) := by
  have hname := exposed?_between "var " " = " (isPlain_ofList rfl)
    (Script.exposed?_identifier houtput) (isPlain_ofList rfl)
  exact exposed?_append_plain (exposed?_append hname h) _ (isPlain_ofList rfl)

/-- **The code of a step shows its form**: every literal is closed, and
outside the literals is what the form of the step says. -/
theorem exposed?_join_fragments (hvars : vars.WellFormed) (hscript : step.takesScript = false)
    (houtput : ∀ output, step.output? = some output → Script.isIdentifier output.name = true)
    {code : List String} (h : step.fragments vars assistants = .ok code) :
    exposed? (String.join code) = some (String.join step.exposed) := by
  refine Script.exposed?_join ?_
  -- in each case the pieces up to the first that is not a literal are joined
  cases step with
  | sendText text =>
    obtain ⟨rendered, htext, hcode⟩ := Checks.bind_eq_ok_iff.mp h
    obtain rfl := Except.ok.inj hcode
    have hline := exposed?_between "await sendText(conversationId, " ");\n"
      (isPlain_ofList rfl) (Template.exposed?_render hvars htext) (isPlain_ofList rfl)
    exact .cons (hline.trans (by decide)) .nil
  | sendMedia url caption =>
    obtain ⟨renderedCaption, hcaption, h⟩ := Checks.bind_eq_ok_iff.mp h
    obtain ⟨renderedUrl, hurl, hcode⟩ := Checks.bind_eq_ok_iff.mp h
    obtain rfl := Except.ok.inj hcode
    have hhead : exposed? ("await sendMedia(conversationId, " ++ renderedUrl ++ ", ") =
        some "await sendMedia(conversationId, \x60\x60, " :=
      (exposed?_between _ _ (isPlain_ofList rfl) (Template.exposed?_render hvars hurl)
        (isPlain_ofList rfl)).trans (by decide)
    have hmedia := exposed?_append hhead (exposed?_renderOption hvars hcaption)
    exact .cons (exposed?_append_plain hmedia _ (isPlain_ofList rfl)) .nil
  | httpRequest method url headers body output =>
    obtain ⟨renderedHeaders, hheaders, h⟩ := Checks.bind_eq_ok_iff.mp h
    obtain ⟨renderedBody, hbody, h⟩ := Checks.bind_eq_ok_iff.mp h
    obtain ⟨renderedUrl, hurl, hcode⟩ := Checks.bind_eq_ok_iff.mp h
    obtain rfl := Except.ok.inj hcode
    have hmethod := exposed?_between "response = await http.request(\x7b method: " ", url: "
      (isPlain_ofList rfl) (exposed?_quote method.name) (isPlain_ofList rfl)
    have hhead : exposed? ("response = await http.request(\x7b method: "
        ++ Text.quote method.name ++ ", url: " ++ renderedUrl ++ ", headers: \x7b ") =
        some "response = await http.request(\x7b method: '', url: \x60\x60, headers: \x7b " :=
      (exposed?_append_plain (exposed?_append hmethod (Template.exposed?_render hvars hurl))
        _ (isPlain_ofList rfl)).trans (by decide)
    have hheaders := exposed?_append_plain
      (exposed?_append hhead (exposed?_renderHeaders hvars hheaders)) " \x7d, data: "
      (isPlain_ofList rfl)
    have hdata := exposed?_append hheaders (exposed?_renderOption hvars hbody)
    refine .cons (exposed?_append_plain hdata _ (isPlain_ofList rfl)) ?_
    cases output with
    | none => exact .nil
    | some output =>
      exact .cons (exposed?_declare (houtput _ rfl)
        (exposed?_of_plain _ (isPlain_ofList rfl))) .nil
  | queryAssistant assistant prompt output =>
    rw [fragments] at h
    split at h
    · cases h
    · rename_i entry _
      obtain ⟨renderedPrompt, hprompt, hcode⟩ := Checks.bind_eq_ok_iff.mp h
      obtain rfl := Except.ok.inj hcode
      have hpath : exposed? "response = await http.post('/assistants/query', \x7b model: " =
          some "response = await http.post('', \x7b model: " := by decide
      have hmodel := exposed?_append_plain (exposed?_append hpath (exposed?_quote entry.model))
        ", personality: " (isPlain_ofList rfl)
      have hpersonality := exposed?_append_plain
        (exposed?_append hmodel (exposed?_quote entry.personality)) ", prompt: "
        (isPlain_ofList rfl)
      have hline := exposed?_append_plain
        (exposed?_append hpersonality (Template.exposed?_render hvars hprompt))
        " \x7d);\n" (isPlain_ofList rfl)
      exact .cons (hline.trans (by decide))
        (.cons (exposed?_declare (houtput _ rfl)
          (exposed?_of_plain _ (isPlain_ofList rfl))) .nil)
  | setVariable output value =>
    obtain ⟨hcheck, hcode⟩ := Checks.check_bind_eq_ok_iff.mp h
    obtain rfl := Except.ok.inj hcode
    have hvalue := Operand.exposed?_render hvars hscript hcheck
    exact .cons (exposed?_declare (houtput _ rfl) hvalue) .nil
  | storeValue key value =>
    obtain ⟨hcheck, hcode⟩ := Checks.check_bind_eq_ok_iff.mp h
    obtain rfl := Except.ok.inj hcode
    have hvalue := Operand.exposed?_render hvars hscript hcheck
    have hhead : exposed? ("await storage.set(contactId, " ++ Text.quote key ++ ", ") =
        some "await storage.set(contactId, '', " :=
      (exposed?_between _ _ (isPlain_ofList rfl) (exposed?_quote key)
        (isPlain_ofList rfl)).trans (by decide)
    exact .cons (exposed?_append_plain (exposed?_append hhead hvalue) _ (isPlain_ofList rfl)) .nil
  | loadValue key output =>
    obtain rfl := Except.ok.inj h
    have hvalue : exposed? ("await storage.get(contactId, " ++ Text.quote key ++ ")") =
        some "await storage.get(contactId, '')" :=
      (exposed?_between _ _ (isPlain_ofList rfl) (exposed?_quote key)
        (isPlain_ofList rfl)).trans (by decide)
    exact .cons (exposed?_declare (houtput _ rfl) hvalue) .nil
  | wait seconds =>
    obtain rfl := Except.ok.inj h
    have hseconds := Text.exposed?_of_inNumber (Text.inNumber_natText (seconds.toNat * 1000))
    exact .cons (exposed?_between _ _ (isPlain_ofList rfl) hseconds (isPlain_ofList rfl)) .nil
  | script code => cases hscript

/-- **User text never escapes its literal.** Take a step without script of a
person's own and with an output, if it has one, under an identifier. When its
payload is made, with a table of variables that insertions and removals have
made, scanning the payload's code closes every literal that it opens; what lies
outside the literals is what the form of the step says, and the same for every
step of that form, made with whatever tables. -/
theorem exposed?_payload (hvars : vars.Built) (hscript : step.takesScript = false)
    (houtput : ∀ output, step.output? = some output → Script.isIdentifier output.name = true)
    (h : step.payload vars assistants = .ok payload) :
    exposed? (String.join payload.code) = some (String.join step.exposed) ∧
      ∀ step' vars' assistants' payload', SameForm step step' → vars'.Built →
        step'.payload vars' assistants' = .ok payload' →
        exposed? (String.join payload'.code) = some (String.join step.exposed) := by
  obtain ⟨code, hcode, hpayload⟩ := Checks.bind_eq_ok_iff.mp h
  obtain rfl := Except.ok.inj hpayload
  refine ⟨exposed?_join_fragments hvars.wellFormed hscript houtput hcode, ?_⟩
  intro step' vars' assistants' payload' hform hvars' h'
  obtain ⟨code', hcode', hpayload'⟩ := Checks.bind_eq_ok_iff.mp h'
  obtain rfl := Except.ok.inj hpayload'
  have hscript' : step'.takesScript = false := hform.takesScript_eq.trans hscript
  have houtput' : ∀ output, step'.output? = some output →
      Script.isIdentifier output.name = true := by
    intro output' hsome'
    have hname := hform.output?
    rw [Output.SameName, hsome', Option.map_some, Option.map_eq_some_iff] at hname
    obtain ⟨output, hsome, heq⟩ := hname
    exact heq ▸ houtput output hsome
  rw [exposed?_join_fragments hvars'.wellFormed hscript' houtput' hcode', hform.exposed_eq]

/-- A request whose texts try to leave their literals: with a backquote and a
substitution of their own, with a backslash at the end, with a quote in the
name of a header. -/
def hostileRequest : Step :=
  .httpRequest .post "\x60 + $\x7bsteal()\x7d + \x7b\x7bcode\x7d\x7d\\"
    (Headers.ofList [("it's\\", "$\x7b\x7bcontactId\x7d\x7d")]) (some "'\x60); steal();\\")
    (some ⟨"reply", "'"⟩)

/-- A request of the same form. -/
def plainRequest : Step :=
  .httpRequest .post "" (Headers.ofList [("accept", "text")]) (some "") (some ⟨"reply", "Reply"⟩)

/-- What requests of this form show. -/
def shownRequest : String :=
  "response = await http.request(\x7b method: '', url: \x60\x60, " ++
    "headers: \x7b '': \x60\x60 \x7d, data: \x60\x60 \x7d);\nvar reply = response.data;\n"

/-- The two requests show the same code. -/
theorem exposed?_payload_hostileRequest :
    ∃ payload payload',
      hostileRequest.payload (NameTable.empty.appended ⟨"code", "Code", "n"⟩) .empty =
        .ok payload ∧
      plainRequest.payload .empty .empty = .ok payload' ∧
      exposed? (String.join payload.code) = some shownRequest ∧
      exposed? (String.join payload'.code) = some shownRequest := by
  have hinsert : NameTable.empty.insert (Variable.mk "code" "Code" "n") =
      .ok (NameTable.empty.appended ⟨"code", "Code", "n"⟩) := rfl
  have hmade {answer : Except ConfigurationError Payload} (h : answer.isOk = true) :
      ∃ payload, answer = .ok payload := by
    cases answer with
    | error _ => cases h
    | ok payload => exact ⟨payload, rfl⟩
  obtain ⟨payload, hpayload⟩ : ∃ payload, hostileRequest.payload
      (NameTable.empty.appended ⟨"code", "Code", "n"⟩) .empty = .ok payload :=
    hmade (by decide +kernel)
  obtain ⟨payload', hpayload'⟩ : ∃ payload', plainRequest.payload .empty .empty = .ok payload' :=
    hmade (by decide +kernel)
  have houtput : ∀ output, hostileRequest.output? = some output →
      Script.isIdentifier output.name = true := by
    rintro output ⟨⟩
    decide
  have hform : SameForm hostileRequest plainRequest := .httpRequest _ _ _ rfl rfl rfl
  obtain ⟨hshown, hsame⟩ := exposed?_payload (.insert .empty hinsert) rfl houtput hpayload
  have hshape : String.join hostileRequest.exposed = shownRequest := by decide
  rw [hshape] at hshown hsame
  exact ⟨payload, payload', hpayload, hpayload', hshown, hsame _ _ _ _ hform .empty hpayload'⟩

end Step

end StepGraph
