import StepGraph.Proofs.Script.Exposed
import StepGraph.Proofs.Step.Placeholders

/-!
# Template literals, read back

Between the backquotes of a template literal a backslash makes the next
character literal, and a name in braces behind a dollar sign is a substitution
(`Template.Literal.read?`). Read in this way, what is written for the segments
of a text gives back its parts, character by character, and nothing is left
over (`Literal.read?_segments`). So a text is rendered faithfully, whatever
stands in it, as long as its placeholders name what is known
(`render_faithful`).
-/

namespace StepGraph

/-- **The names that a template may refer to**: those of registered variables,
and the ambient ones. -/
def VariableTable.Knows (vars : VariableTable) (name : String) : Prop :=
  name ∈ vars.entries.map Variable.name ∨ name ∈ Script.ambientNames

/-- A name is resolvable when it is known. -/
theorem VariableTable.isResolvable_iff_knows {vars : VariableTable} (h : vars.WellFormed)
    {name : String} : vars.isResolvable name = true ↔ vars.Knows name := by
  rw [isResolvable, Bool.or_eq_true, h.contains_iff, Script.isAmbient, List.contains_iff_mem]
  rfl

namespace Template

variable {vars : VariableTable} {rest name : List Char} {c : Char}

/-! ## Reading -/

namespace Literal

/-- Where a reader stands: in a piece of text, or in a substitution of which
it has read a part. -/
inductive Place where
  | text
  | substitution (name : List Char)

/-- **The parts of a template literal** behind its opening backquote, and what
follows the literal. A substitution has to be a name. -/
def read? : Place → List Char → Option (Parts × List Char)
  | .text, '\x60' :: rest => some (⟨[], []⟩, rest)
  | .text, '\\' :: c :: rest => (read? .text rest).map fun found => (found.1.push c, found.2)
  | .text, '$' :: '\x7b' :: rest => read? (.substitution []) rest
  | .text, c :: rest => (read? .text rest).map fun found => (found.1.push c, found.2)
  | .substitution name, '\x7d' :: rest =>
    if Script.isIdentifier (String.ofList name) then
      (read? .text rest).map fun found => (found.1.mark name, found.2)
    else none
  | .substitution name, c :: rest => read? (.substitution (name ++ [c])) rest
  | _, [] => none

/-- The parts of a whole template literal, and what follows it. -/
def parts? : List Char → Option (Parts × List Char)
  | '\x60' :: rest => read? .text rest
  | _ => none

/-- A dollar sign alone stands for itself, and so do braces. -/
example : parts? "\x60a$\\\x60\x7b$\x7bb\x7d\x60c".toList =
    some (⟨[("a$\x60\x7b".toList, "b".toList)], []⟩, ['c']) := by decide

/-- A character is read as it was, in whatever way it was written. -/
theorem read?_escapedChar (c : Char) (rest : List Char) :
    read? .text (escapedChar c ++ rest) =
      (read? .text rest).map fun found => (found.1.push c, found.2) := by
  rw [escapedChar]
  split
  · rfl
  · rename_i hplain
    simp only [Bool.or_eq_true, decide_eq_true_eq, not_or] at hplain
    obtain ⟨⟨hslash, hquote⟩, hdollar⟩ := hplain
    rw [List.singleton_append, read?]
    · exact fun h => hquote h
    · rintro d _ rfl
      exact absurd rfl hslash
    · rintro _ rfl
      exact absurd rfl hdollar

/-- A name is read up to the brace that closes it. -/
theorem read?_name (hname : '\x7d' ∉ name) (read rest : List Char) :
    read? (.substitution read) (name ++ '\x7d' :: rest) =
      read? (.substitution (read ++ name)) ('\x7d' :: rest) := by
  induction name generalizing read with
  | nil => rw [List.nil_append, List.append_nil]
  | cons c name ih =>
    obtain ⟨hc, hname⟩ := not_or.mp (mt List.mem_cons.mpr hname)
    have hnext : read? (.substitution read) (c :: (name ++ '\x7d' :: rest)) =
        read? (.substitution (read ++ [c])) (name ++ '\x7d' :: rest) := by
      rw [read?]
      exact fun h => hc h.symm
    rw [List.cons_append, hnext, ih hname, List.append_assoc, List.singleton_append]

/-- No identifier has a closing brace. -/
theorem not_mem_of_isIdentifier (h : Script.isIdentifier (String.ofList name) = true) :
    '\x7d' ∉ name := by
  intro hmem
  rw [Script.isIdentifier, String.toList_ofList] at h
  cases name with
  | nil => cases hmem
  | cons first others =>
    rw [Bool.and_eq_true, List.all_eq_true] at h
    rcases List.mem_cons.mp hmem with rfl | hmem
    · exact absurd h.1 (by decide)
    · exact absurd (h.2 _ hmem) (by decide)

/-- **A substitution is read as its name.** -/
theorem read?_substitution (h : Script.isIdentifier (String.ofList name) = true)
    (rest : List Char) :
    read? .text ((Segment.placeholder name).render ++ rest) =
      (read? .text rest).map fun found => (found.1.mark name, found.2) := by
  have hwritten : (Segment.placeholder name).render ++ rest =
      '$' :: '\x7b' :: (name ++ '\x7d' :: rest) := by
    simp [Segment.render]
  rw [hwritten, read?, read?_name (not_mem_of_isIdentifier h), List.nil_append, read?, if_pos h]

/-- **What is written for segments is read as their parts**, up to the
backquote that closes the literal. -/
theorem read?_segments {segments : List Segment}
    (h : ∀ name ∈ segments.filterMap Segment.name?, Script.isIdentifier name = true)
    (rest : List Char) :
    read? .text (segments.flatMap Segment.render ++ '\x60' :: rest) =
      some (partsOf segments, rest) := by
  induction segments with
  | nil => rfl
  | cons segment segments ih =>
    rw [List.flatMap_cons, List.append_assoc]
    cases segment with
    | literal c =>
      rw [List.filterMap_cons, Segment.name?] at h
      rw [Segment.render, read?_escapedChar, ih h]
      rfl
    | placeholder name =>
      rw [List.filterMap_cons, Segment.name?, List.forall_mem_cons] at h
      rw [read?_substitution h.1, ih h.2]
      rfl

end Literal

/-! ## Rendering -/

/-- **A text is refused** for the first of its placeholders that is not
resolvable. -/
theorem render_eq_error_iff {text : String} {error : ConfigurationError} :
    render text vars = .error error ↔
      ∃ known name others, placeholders text = known ++ name :: others ∧
        (∀ other ∈ known, vars.isResolvable other = true) ∧
        vars.isResolvable name = false ∧ error = .unknownVariable name := by
  have hfind : render text vars = .error error ↔
      ∃ name, (placeholders text).find? (fun name => !vars.isResolvable name) = some name ∧
        error = .unknownVariable name := by
    rw [render]
    cases (placeholders text).find? fun name => !vars.isResolvable name <;> simp [eq_comm]
  simp only [hfind, List.find?_eq_some_iff_append, Bool.not_eq_true', Bool.not_not]
  constructor
  · rintro ⟨name, ⟨hname, known, others, heq, hknown⟩, rfl⟩
    exact ⟨known, name, others, heq, hknown, hname, rfl⟩
  · rintro ⟨known, name, others, heq, hknown, hname, rfl⟩
    exact ⟨name, ⟨hname, known, others, heq, hknown⟩, rfl⟩

/-- **A text is rendered faithfully.** The pattern of a placeholder matches
where one begins. A text is cut in one way into placeholders and the pieces
between them, and its placeholders are the names of these. It is rendered when
all of them are known, and refused for the first that is not. What it is
rendered as is a template literal, which is read back to its last character as
the pieces of the text, with the names between them. -/
theorem render_faithful (hvars : vars.Built) (text : String) :
    (∀ rest name after, matched? rest = some (name, after) ↔
      ∃ content, Occurs rest [] content after ∧ name = Text.trim content) ∧
    ∃ parts, (Splits text.toList parts ∧ ∀ other, Splits text.toList other → other = parts) ∧
      placeholders text = parts.names ∧
      ((∃ result, render text vars = .ok result) ↔ ∀ name ∈ parts.names, vars.Knows name) ∧
      (∀ error, render text vars = .error error ↔
        ∃ known name others, parts.names = known ++ name :: others ∧
          (∀ other ∈ known, vars.Knows other) ∧ ¬ vars.Knows name ∧
          error = .unknownVariable name) ∧
      ∀ result, render text vars = .ok result →
        Literal.parts? result.toList = some (parts.trimmed, []) := by
  have hknows {name : String} : vars.isResolvable name = true ↔ vars.Knows name :=
    VariableTable.isResolvable_iff_knows hvars.wellFormed
  obtain ⟨parts, hsplits, hparts, hnames⟩ := exists_splits text.toList
  have hplaceholders : placeholders text = parts.names := hnames
  refine ⟨fun _ _ _ => matched?_eq_some_iff, parts,
    ⟨hsplits, fun other hother => splits_unique hsplits hother⟩, hplaceholders, ?_,
    fun error => ?_, fun result hrender => ?_⟩
  · simp only [render_eq_ok_iff, exists_and_left, exists_eq, and_true, hplaceholders, hknows]
  · simp only [render_eq_error_iff, hplaceholders, Bool.eq_false_iff, Ne, hknows]
  · obtain ⟨hresolvable, rfl⟩ := render_eq_ok_iff.mp hrender
    rw [rendered, String.toList_ofList, Literal.parts?, Literal.read?_segments, hparts]
    exact fun name hname =>
      VariableTable.isIdentifier_of_isResolvable hvars.wellFormed (hresolvable name hname)

/-- A table with one variable. -/
def totalTable : VariableTable :=
  .appended .empty ⟨"total", "Total", "node"⟩

/-- A text with two placeholders side by side, with characters that mean
something in a template literal, and with a placeholder that is not
finished. -/
def totalText : String :=
  "a$ \x7b\x7b total \x7d\x7d\x7b\x7bcontactName\x7d\x7d\\\x7b \x7b\x7b"

/-- What the text is rendered as. -/
def totalLiteral : String :=
  "\x60a\\$ $\x7btotal\x7d$\x7bcontactName\x7d\\\\\x7b \x7b\x7b\x60"

/-- The parts of the text, with the names of its placeholders. -/
def totalParts : Parts :=
  ⟨[("a$ ".toList, "total".toList), ([], "contactName".toList)], "\\\x7b \x7b\x7b".toList⟩

/-- The text is rendered, and its parts are read back. -/
theorem render_faithful_totalText :
    totalTable.Built ∧ render totalText totalTable = .ok totalLiteral ∧
      ∃ parts, Splits totalText.toList parts ∧ parts.trimmed = totalParts ∧
        Literal.parts? totalLiteral.toList = some (totalParts, []) := by
  have hinsert : NameTable.empty.insert (⟨"total", "Total", "node"⟩ : Variable) = .ok totalTable :=
    rfl
  have hbuilt : totalTable.Built := .insert .empty hinsert
  have hrender : render totalText totalTable = .ok totalLiteral := by decide +kernel
  have hparts : Literal.parts? totalLiteral.toList = some (totalParts, []) := by decide
  obtain ⟨-, parts, ⟨hsplits, -⟩, -, -, -, hread⟩ := render_faithful hbuilt totalText
  have hsame := (hread _ hrender).symm.trans hparts
  exact ⟨hbuilt, hrender, parts, hsplits, (Prod.mk.inj (Option.some.inj hsame)).1, hparts⟩

end Template

end StepGraph
