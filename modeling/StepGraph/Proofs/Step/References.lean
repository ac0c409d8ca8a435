import StepGraph.Proofs.Checks
import StepGraph.Step.Config
import Mathlib.Data.List.Basic

/-!
# The names that a step refers to

A step refers to names by the placeholders in its texts and by the variables
among its operands. Its code is made only when all of these are known
(`Step.isResolvable_of_fragments`), and they can be told from the
configuration that the step is stored as
(`Step.references_eq_of_toJson_eq`).
-/

namespace StepGraph

variable {vars : VariableTable}

/-! ## Rendered texts -/

namespace Template

/-- What a text becomes as a template literal. -/
def rendered (text : String) : String :=
  String.ofList ('\x60' :: ((segments text.toList).flatMap Segment.render ++ ['\x60']))

/-- **A text is rendered** when its placeholders are resolvable. -/
theorem render_eq_ok_iff {text result : String} :
    render text vars = .ok result ↔
      (∀ name ∈ placeholders text, vars.isResolvable name = true) ∧ result = rendered text := by
  rw [render]
  cases hfind : (placeholders text).find? fun name => !vars.isResolvable name with
  | some name =>
    have hname : vars.isResolvable name = false := by simpa using List.find?_some hfind
    have hmem : name ∈ placeholders text := List.mem_of_find?_eq_some hfind
    simp only [reduceCtorEq, false_iff, not_and]
    intro hall
    rw [hall name hmem] at hname
    cases hname
  | none =>
    have hall : ∀ name ∈ placeholders text, vars.isResolvable name = true := by
      simpa using hfind
    rw [Except.ok.injEq, eq_comm, and_iff_right hall, rendered]

end Template

namespace Step

variable {step step' : Step} {assistants : AssistantTable}

/-- A header as a member of the header object. -/
def renderedHeader (entry : String × String) : String :=
  Text.quote entry.1 ++ ": " ++ Template.rendered entry.2

/-- **Headers are rendered** when their values are. -/
theorem renderHeaders_eq_ok_iff {headers : Headers} {result : String} :
    renderHeaders headers vars = .ok result ↔
      (∀ entry ∈ headers.entries, ∀ name ∈ Template.placeholders entry.2,
        vars.isResolvable name = true) ∧
        result = ", ".intercalate (headers.entries.map renderedHeader) := by
  have hmember : ∀ (entry : String × String) (member : String),
      (do let value ← Template.render entry.2 vars; return Text.quote entry.1 ++ ": " ++ value) =
        Except.ok (ε := ConfigurationError) member ↔
      (∀ name ∈ Template.placeholders entry.2, vars.isResolvable name = true) ∧
        member = renderedHeader entry := by
    intro entry member
    simp only [Checks.bind_eq_ok_iff, Template.render_eq_ok_iff, Checks.pure_eq_ok_iff]
    constructor
    · rintro ⟨value, ⟨hnames, rfl⟩, rfl⟩
      exact ⟨hnames, rfl⟩
    · rintro ⟨hnames, rfl⟩
      exact ⟨_, ⟨hnames, rfl⟩, rfl⟩
  rw [renderHeaders, Checks.bind_eq_ok_iff]
  simp only [Checks.mapM_eq_ok_iff fun entry member h => ((hmember entry member).mp h).2,
    hmember, and_true, Checks.pure_eq_ok_iff]
  constructor
  · rintro ⟨members, ⟨rfl, hall⟩, rfl⟩
    exact ⟨hall, rfl⟩
  · rintro ⟨hall, rfl⟩
    exact ⟨_, ⟨rfl, hall⟩, rfl⟩

/-! ## Names -/

/-- **The names that a step refers to.** -/
def references : Step → List String
  | sendText text => Template.placeholders text
  | sendMedia url caption =>
    caption.toList.flatMap Template.placeholders ++ Template.placeholders url
  | httpRequest _ url headers body _ =>
    headers.entries.flatMap (fun entry => Template.placeholders entry.2) ++
      (body.toList.flatMap Template.placeholders ++ Template.placeholders url)
  | queryAssistant _ prompt _ => Template.placeholders prompt
  | setVariable _ value => value.reference?.toList
  | storeValue _ value => value.reference?.toList
  | loadValue _ _ => []
  | wait _ => []
  | script _ => []

theorem isResolvable_of_renderOption {text : Option String} {result : String}
    (h : renderOption text vars = .ok result) :
    ∀ name ∈ text.toList.flatMap Template.placeholders, vars.isResolvable name = true := by
  cases text with
  | none => exact fun _ hname => (by cases hname)
  | some text => simpa using (Template.render_eq_ok_iff.mp h).1

theorem isResolvable_of_check {operand : Operand} (h : operand.check vars = .ok ()) :
    ∀ name ∈ operand.reference?.toList, vars.isResolvable name = true := by
  intro name hname
  rw [Operand.check, Option.mem_toList.mp hname] at h
  dsimp only at h
  split at h
  · assumption
  · cases h

/-- **A step whose code is made refers to known names.** -/
theorem isResolvable_of_fragments {code : List String}
    (h : step.fragments vars assistants = .ok code) :
    ∀ name ∈ step.references, vars.isResolvable name = true := by
  cases step with
  | sendText text =>
    obtain ⟨rendered, htext, -⟩ := Checks.bind_eq_ok_iff.mp h
    exact (Template.render_eq_ok_iff.mp htext).1
  | sendMedia url caption =>
    obtain ⟨renderedCaption, hcaption, h⟩ := Checks.bind_eq_ok_iff.mp h
    obtain ⟨renderedUrl, hurl, -⟩ := Checks.bind_eq_ok_iff.mp h
    exact List.forall_mem_append.mpr
      ⟨isResolvable_of_renderOption hcaption, (Template.render_eq_ok_iff.mp hurl).1⟩
  | httpRequest method url headers body output =>
    obtain ⟨renderedHeaders, hheaders, h⟩ := Checks.bind_eq_ok_iff.mp h
    obtain ⟨renderedBody, hbody, h⟩ := Checks.bind_eq_ok_iff.mp h
    obtain ⟨renderedUrl, hurl, -⟩ := Checks.bind_eq_ok_iff.mp h
    have hvalues : ∀ name ∈ headers.entries.flatMap fun entry => Template.placeholders entry.2,
        vars.isResolvable name = true := by
      intro name hname
      obtain ⟨entry, hentry, hname⟩ := List.mem_flatMap.mp hname
      exact (renderHeaders_eq_ok_iff.mp hheaders).1 entry hentry name hname
    exact List.forall_mem_append.mpr ⟨hvalues, List.forall_mem_append.mpr
      ⟨isResolvable_of_renderOption hbody, (Template.render_eq_ok_iff.mp hurl).1⟩⟩
  | queryAssistant assistant prompt output =>
    rw [fragments] at h
    split at h
    · cases h
    · obtain ⟨renderedPrompt, hprompt, -⟩ := Checks.bind_eq_ok_iff.mp h
      exact (Template.render_eq_ok_iff.mp hprompt).1
  | setVariable output value => exact isResolvable_of_check (Checks.check_bind_eq_ok_iff.mp h).1
  | storeValue key value => exact isResolvable_of_check (Checks.check_bind_eq_ok_iff.mp h).1
  | loadValue | wait | script => exact fun _ hname => (by cases hname)

end Step

/-! ## Told from the configuration -/

/-- A text that may be absent can be told from its value. -/
theorem Json.ofOption_string_injective : Function.Injective (Json.ofOption Json.string) := by
  intro text text' h
  cases text <;> cases text' <;> simp_all [Json.ofOption]

/-- Headers can be told from their object. -/
theorem Headers.entries_eq_of_toJson_eq {headers headers' : Headers}
    (h : headers.toJson = headers'.toJson) : headers.entries = headers'.entries := by
  have hmembers := Json.object.inj h
  refine List.map_injective_iff.mpr (fun entry entry' heq => ?_) hmembers
  exact Prod.ext (Prod.mk.inj heq).1 (Json.string.inj (Prod.mk.inj heq).2)

/-- The variable of an operand can be told from its value. -/
theorem Operand.reference?_eq_of_toJson_eq {value value' : Operand}
    (h : value.toJson = value'.toJson) : value.reference? = value'.reference? := by
  cases value <;> cases value' <;> simp_all [toJson, toJson.tagged, reference?]

/-- **Steps that are stored alike refer to the same names.** -/
theorem Step.references_eq_of_toJson_eq {step step' : Step} (h : step.toJson = step'.toJson) :
    step.references = step'.references := by
  cases step <;> cases step' <;> simp [toJson] at h
  case sendText.sendText => rw [h]
  case sendMedia.sendMedia =>
    obtain ⟨hcaption, rfl⟩ := h
    rw [references, references, Json.ofOption_string_injective hcaption]
  case httpRequest.httpRequest =>
    obtain ⟨hbody, hheaders, -, -, rfl⟩ := h
    rw [references, references, Json.ofOption_string_injective hbody,
      Headers.entries_eq_of_toJson_eq hheaders]
  case queryAssistant.queryAssistant => rw [references, references, h.2.2]
  case setVariable.setVariable | storeValue.storeValue =>
    rw [references, references, Operand.reference?_eq_of_toJson_eq h.2]
  case loadValue.loadValue | wait.wait | script.script => rfl

end StepGraph
