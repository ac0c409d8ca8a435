import StepGraph.Kind.Builtin
import StepGraph.Proofs.Step.References
import StepGraph.Proofs.Text.Quoted

/-!
# Texts in literals of their own

Case values, the keys of stored values, the names of headers and text operands
stand in a script as quoted texts. The script around such a text does not
depend on it, and a reader that comes to the literal reads the text and is left
with the script behind it (`Text.OwnLiteral`). So no text closes its literal,
and no two are written alike (`Text.quote_faithful`).
-/

namespace StepGraph

namespace Text

/-- **A text in a literal of its own.** Whatever the text is, the same code
stands before it and behind it, the text is quoted in between, and the literal
there is read as the text, with the code behind it left. -/
def OwnLiteral (code : String → String) : Prop :=
  ∃ before after, ∀ text, code text = before ++ quote text ++ after ∧
    readQuoted ((code text).toList.drop before.length) = some (text.toList, after.toList)

/-- Code around a quoted text leaves it in a literal of its own. -/
theorem ownLiteral_between {code : String → String} (before after : String)
    (h : ∀ text, code text = before ++ quote text ++ after) : OwnLiteral code := by
  refine ⟨before, after, fun text => ⟨h text, ?_⟩⟩
  have hdrop : (code text).toList.drop before.length = (quote text).toList ++ after.toList := by
    rw [h, String.toList_append, String.toList_append, List.append_assoc,
      ← String.length_toList, List.drop_left]
  rw [hdrop]
  exact readQuoted_quote text after.toList

/-- Two texts that are quoted alike are read alike. -/
theorem quote_injective : Function.Injective quote := by
  intro text text' h
  have hread := readQuoted_quote text []
  rw [h, readQuoted_quote text' []] at hread
  exact String.toList_inj.mp (Prod.mk.inj (Option.some.inj hread)).1.symm

/-- What stands in front of one of the parts of a text leaves the same text
before it and behind it. -/
theorem exists_around_intercalate (separator part : String) (parts others : List String) :
    ∃ before after, ∀ front, separator.intercalate (parts ++ (front ++ part) :: others) =
      before ++ front ++ after := by
  have hfirst : ∃ after, ∀ front, separator.intercalate ((front ++ part) :: others) =
      front ++ after := by
    cases others with
    | nil => exact ⟨part, fun front => String.intercalate_singleton⟩
    | cons next others =>
      refine ⟨part ++ (separator ++ separator.intercalate (next :: others)), fun front => ?_⟩
      rw [String.intercalate_cons_cons]
      simp only [String.append_assoc]
  obtain ⟨after, hafter⟩ := hfirst
  by_cases hparts : parts = []
  · refine ⟨"", after, fun front => ?_⟩
    rw [hparts, List.nil_append, hafter, String.empty_append]
  · refine ⟨separator.intercalate parts ++ separator, after, fun front => ?_⟩
    rw [String.intercalate_append_of_ne_nil hparts (List.cons_ne_nil _ _), hafter,
      ← String.append_assoc]

end Text

namespace Step

variable {vars : VariableTable} {assistants : AssistantTable} {method : HttpMethod}
variable {url name value : String} {entries others : List (String × String)}
variable {body : Option String} {output : Option Output} {codes : List String}

/-- **The name of a header stands in a literal of its own** in the code of its
request. -/
theorem ownLiteral_header {hsorted : Keyed.Sorted (entries ++ (name, value) :: others)}
    (h : (httpRequest method url ⟨entries ++ (name, value) :: others, hsorted⟩ body
      output).fragments vars assistants = .ok codes) :
    ∃ code, Text.OwnLiteral code ∧
      ∀ name' (hsorted' : Keyed.Sorted (entries ++ (name', value) :: others)),
        (httpRequest method url ⟨entries ++ (name', value) :: others, hsorted'⟩ body
          output).fragments vars assistants = .ok (code name' :: codes.tail) := by
  obtain ⟨renderedHeaders, hheaders, h⟩ := Checks.bind_eq_ok_iff.mp h
  obtain ⟨renderedBody, hbody, h⟩ := Checks.bind_eq_ok_iff.mp h
  obtain ⟨renderedUrl, hurl, hcodes⟩ := Checks.bind_eq_ok_iff.mp h
  obtain rfl := Except.ok.inj hcodes
  obtain ⟨hknown, -⟩ := renderHeaders_eq_ok_iff.mp hheaders
  obtain ⟨before, after, haround⟩ := Text.exists_around_intercalate ", "
    (": " ++ Template.rendered value) (entries.map renderedHeader) (others.map renderedHeader)
  let head := "response = await http.request(\x7b method: " ++ Text.quote method.name
    ++ ", url: " ++ renderedUrl ++ ", headers: \x7b "
  let tail := " \x7d, data: " ++ renderedBody ++ " \x7d);\n"
  refine ⟨fun name' => head ++ before ++ Text.quote name' ++ (after ++ tail),
    Text.ownLiteral_between _ _ fun _ => rfl, fun name' hsorted' => ?_⟩
  have hheaders' : renderHeaders ⟨entries ++ (name', value) :: others, hsorted'⟩ vars =
      .ok (before ++ Text.quote name' ++ after) := by
    refine renderHeaders_eq_ok_iff.mpr ⟨?_, ?_⟩
    · rw [List.forall_mem_append, List.forall_mem_cons] at hknown ⊢
      exact hknown
    · rw [List.map_append, List.map_cons, ← haround, renderedHeader, String.append_assoc]
  rw [fragments, hheaders', Checks.ok_bind, hbody, Checks.ok_bind, hurl, Checks.ok_bind]
  simp only [head, tail, String.append_assoc]
  rfl

end Step

/-- **Quoted texts are read as they are.** Whatever follows a quoted text, it is
read as the text, with what follows left; so no two texts are quoted alike.
Text operands, the values of cases, the keys of stored values and the names of
headers all stand in literals of their own. -/
theorem Text.quote_faithful :
    (∀ text rest, readQuoted ((quote text).toList ++ rest) = some (text.toList, rest)) ∧
    Function.Injective quote ∧
    OwnLiteral (fun value => (Operand.text value).render) ∧
    (∀ body, OwnLiteral fun value => Builtin.caseText ⟨.caseBranch value, body⟩) ∧
    (∀ vars assistants (operand : Operand), operand.check vars = .ok () →
      ∃ code, OwnLiteral code ∧
        ∀ key, (Step.storeValue key operand).fragments vars assistants = .ok [code key]) ∧
    (∀ vars assistants output, ∃ code, OwnLiteral code ∧
      ∀ key, (Step.loadValue key output).fragments vars assistants = .ok [code key]) ∧
    ∀ vars assistants method url entries name value others hsorted body output codes,
      (Step.httpRequest method url ⟨entries ++ (name, value) :: others, hsorted⟩ body
        output).fragments vars assistants = .ok codes →
      ∃ code, OwnLiteral code ∧
        ∀ name' (hsorted' : Keyed.Sorted (entries ++ (name', value) :: others)),
          (Step.httpRequest method url ⟨entries ++ (name', value) :: others, hsorted'⟩ body
            output).fragments vars assistants = .ok (code name' :: codes.tail) := by
  refine ⟨readQuoted_quote, quote_injective, ?_, fun body => ?_,
    fun vars assistants operand hcheck => ?_, fun vars assistants output => ?_, ?_⟩
  · refine ownLiteral_between "" "" fun value => ?_
    rw [String.empty_append, String.append_empty, Operand.render]
  · refine ownLiteral_between "case " (":\n" ++ block body ++ "break;\n") fun value => ?_
    simp only [Builtin.caseText, String.append_assoc]
  · refine ⟨fun key => "await storage.set(contactId, " ++ quote key ++
      (", " ++ operand.render ++ ");\n"), ownLiteral_between _ _ fun _ => rfl, fun key => ?_⟩
    rw [Step.fragments, hcheck, Checks.ok_bind]
    simp only [String.append_assoc]
    rfl
  · refine ⟨fun key => "var " ++ output.name ++ " = " ++ "await storage.get(contactId, " ++
      quote key ++ (")" ++ ";\n"), ownLiteral_between _ _ fun _ => rfl, fun key => ?_⟩
    simp only [Step.fragments, Step.declare, String.append_assoc]
  · intro vars assistants method url entries name value others hsorted body output codes h
    exact Step.ownLiteral_header h

/-- A text with a quote inside and a backslash at its end. -/
def Text.hostile : String := "it's\\"

/-- The headers of a request, one of them under that name. -/
def Headers.hostile : Headers where
  entries := [("accept", "text"), (Text.hostile, "x")]
  sorted := by unfold Keyed.Sorted; decide

/-- As a key and as the name of a header, the text is read as it is. -/
theorem Text.quote_faithful_hostile :
    (∃ before after,
      (Step.storeValue hostile (.text "'")).fragments .empty .empty =
        .ok [before ++ quote hostile ++ after] ∧
      readQuoted ((before ++ quote hostile ++ after).toList.drop before.length) =
        some (hostile.toList, after.toList)) ∧
    ∃ before after,
      (Step.httpRequest .get "u" .hostile none none).fragments .empty .empty =
        .ok [before ++ quote hostile ++ after] ∧
      readQuoted ((before ++ quote hostile ++ after).toList.drop before.length) =
        some (hostile.toList, after.toList) := by
  obtain ⟨-, -, -, -, hstore, -, hrequest⟩ := quote_faithful
  constructor
  · obtain ⟨code, ⟨before, after, hown⟩, hcode⟩ := hstore .empty .empty (.text "'") rfl
    obtain ⟨hquoted, hread⟩ := hown hostile
    exact ⟨before, after, hquoted ▸ hcode hostile, hquoted ▸ hread⟩
  · have hmade :
        (Step.httpRequest .get "u" .hostile none none).fragments .empty .empty =
          .ok ["response = await http.request(\x7b method: 'GET', url: \x60u\x60, " ++
            "headers: \x7b 'accept': \x60text\x60, 'it\\'s\\\\': \x60x\x60 \x7d, " ++
            "data: null \x7d);\n"] := by decide +kernel
    obtain ⟨code, ⟨before, after, hown⟩, hcode⟩ :=
      hrequest _ _ _ _ [("accept", "text")] hostile "x" [] _ _ _ _ hmade
    obtain ⟨hquoted, hread⟩ := hown hostile
    exact ⟨before, after, hquoted ▸ hcode hostile Headers.hostile.sorted, hquoted ▸ hread⟩

end StepGraph
