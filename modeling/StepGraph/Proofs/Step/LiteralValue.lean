import StepGraph.Proofs.Step.References
import StepGraph.Proofs.Text.Quoted

/-!
# What string literals denote

A literal of a script denotes a text. Between single quotes as between
backquotes, a backslash and the character behind it denote one character
(`escapeValue?`), and any other character denotes itself, with one exception:
between backquotes a line may end, and a carriage return there, alone or with
a line feed behind it, denotes a line feed.

A quoted text denotes the text (`quotedValue?_quote`), a rendered text without
placeholders the text with line feeds for its line ends
(`templateValue?_rendered`). So the two literals of a text denote the same when
there is no carriage return in it, and only then (`same_value_iff`).
-/

namespace StepGraph

/-! ## Texts without placeholders -/

namespace Template

/-- Without placeholders all the segments are literal. -/
theorem segments_eq_map {text : List Char} (h : (segments text).filterMap Segment.name? = []) :
    segments text = text.map .literal := by
  induction text using segments.induct with
  | case1 => rw [segments, List.map_nil]
  | case2 c rest name after hfound _ =>
    rw [segments, hfound, List.filterMap_cons, Segment.name?] at h
    cases h
  | case3 c rest hnone ih =>
    rw [segments, hnone, List.filterMap_cons, Segment.name?] at h
    rw [segments, hnone, List.map_cons, ih h]

/-- Then the text is written character by character. -/
theorem flatMap_render_segments {text : String} (h : placeholders text = []) :
    (segments text.toList).flatMap Segment.render = text.toList.flatMap escapedChar := by
  rw [segments_eq_map h, List.flatMap_map]
  rfl

end Template

namespace Script

variable {c : Char} {text rest : List Char} {found : List Char × List Char}

/-! ## Literals -/

/-- The character that a backslash and another character denote. Escapes of
more characters, and lines that go on behind a backslash, have no value
here. -/
def escapeValue? : Char → Option Char
  | 'n' => some '\n'
  | 'r' => some '\r'
  | 't' => some '\t'
  | 'b' => some '\x08'
  | 'f' => some '\x0c'
  | 'v' => some '\x0b'
  | c =>
    if c.isDigit ∨ c ∈ ['x', 'u', '\n', '\r', '\u2028', '\u2029'] then none else some c

/-- A character in front of a text that was read, and of what follows it. -/
def push (c : Char) (found : List Char × List Char) : List Char × List Char :=
  (c :: found.1, found.2)

/-- What is denoted behind a single quote, and what follows the quote that
closes the literal. No line ends inside. -/
def quotedBody? : List Char → Option (List Char × List Char)
  | '\\' :: c :: rest => (escapeValue? c).bind fun value => (quotedBody? rest).map (push value)
  | c :: rest =>
    if c = '\'' then some ([], rest)
    else if c = '\n' ∨ c = '\r' then none
    else (quotedBody? rest).map (push c)
  | [] => none

/-- What is denoted behind a backquote, and what follows the one that closes
the literal. With a substitution inside, no text is denoted. -/
def templateBody? : List Char → Option (List Char × List Char)
  | '\\' :: c :: rest => (escapeValue? c).bind fun value => (templateBody? rest).map (push value)
  | '$' :: '\x7b' :: _ => none
  | '\r' :: '\n' :: rest => (templateBody? rest).map (push '\n')
  | '\r' :: rest => (templateBody? rest).map (push '\n')
  | c :: rest => if c = '\x60' then some ([], rest) else (templateBody? rest).map (push c)
  | [] => none

/-- The text of a literal that was read to its end. -/
def whole? : Option (List Char × List Char) → Option String
  | some (text, []) => some (String.ofList text)
  | _ => none

/-- **The text that a literal between single quotes denotes.** -/
def quotedValue? (literal : String) : Option String :=
  match literal.toList with
  | '\'' :: rest => whole? (quotedBody? rest)
  | _ => none

/-- **The text that a literal between backquotes denotes.** -/
def templateValue? (literal : String) : Option String :=
  match literal.toList with
  | '\x60' :: rest => whole? (templateBody? rest)
  | _ => none

/-! ## Quoted texts -/

/-- The escapes of a quoted text denote what they are read as. -/
theorem escapeValue?_of_unescaped? {value : Char} (h : Text.unescaped? c = some value) :
    escapeValue? c = some value := by
  unfold Text.unescaped? at h
  split at h <;> cases h <;> rfl

/-- What is read with few escapes is denoted. -/
theorem quotedBody?_of_readQuotedBody {escaped : Bool}
    (h : Text.readQuotedBody escaped text = some found) :
    quotedBody? (if escaped then '\\' :: text else text) = some found := by
  induction text generalizing escaped found with
  | nil => cases escaped <;> cases h
  | cons c rest ih =>
    cases escaped with
    | true =>
      simp only [Text.readQuotedBody, Option.bind_eq_bind, Option.bind_eq_some_iff] at h
      obtain ⟨value, hvalue, inner, hinner, heq⟩ := h
      have hescape := escapeValue?_of_unescaped? hvalue
      have hbody : quotedBody? rest = some inner := ih hinner
      rw [if_pos rfl, quotedBody?, hescape, Option.bind_some, hbody]
      exact heq
    | false =>
      rw [Text.readQuotedBody] at h
      split at h
      · rename_i hquote
        cases hquote
        exact h
      · rename_i hquote
        split at h
        · rename_i hslash
          cases hslash
          exact ih h
        · rename_i hslash
          split at h
          · cases h
          · rename_i hline
            simp only [Option.bind_eq_bind, Option.bind_eq_some_iff] at h
            obtain ⟨inner, hinner, heq⟩ := h
            have hbody : quotedBody? rest = some inner := ih hinner
            rw [if_neg Bool.false_ne_true, quotedBody?, if_neg hquote, if_neg hline, hbody]
            · exact heq
            · exact fun _ _ hc _ => hslash hc

/-- **A quoted text denotes the text.** -/
theorem quotedValue?_quote (text : String) : quotedValue? (Text.quote text) = some text := by
  have hread := quotedBody?_of_readQuotedBody (Text.readQuotedBody_flatMap text.toList [])
  rw [if_neg Bool.false_ne_true] at hread
  rw [quotedValue?, Text.quote, String.toList_ofList]
  exact (congrArg whole? hread).trans (congrArg some String.ofList_toList)

/-! ## Rendered texts -/

/-- **A text with line feeds for its line ends**: a carriage return goes, with
the line feed behind it if there is one. -/
def lineFeeds : List Char → List Char
  | '\r' :: '\n' :: rest => '\n' :: lineFeeds rest
  | '\r' :: rest => '\n' :: lineFeeds rest
  | c :: rest => c :: lineFeeds rest
  | [] => []

/-- No carriage return is left. -/
theorem carriageReturn_not_mem_lineFeeds (text : List Char) : '\r' ∉ lineFeeds text := by
  induction text using lineFeeds.induct with
  | case1 rest ih => simpa [lineFeeds] using ih
  | case2 rest hnext ih => simpa [lineFeeds] using ih
  | case3 c rest _ hreturn ih =>
    have hc : c ≠ '\r' := fun h => hreturn h
    simpa [lineFeeds, hc, Ne.symm hc] using ih
  | case4 => simp [lineFeeds]

/-- A text without carriage returns stays as it is. -/
theorem lineFeeds_eq_self (h : '\r' ∉ text) : lineFeeds text = text := by
  induction text with
  | nil => rfl
  | cons c rest ih =>
    obtain ⟨hc, hrest⟩ := not_or.mp (mt List.mem_cons.mpr h)
    rw [lineFeeds, ih hrest]
    · exact fun _ hreturn _ => hc hreturn.symm
    · exact fun hreturn => hc hreturn.symm

/-- A carriage return that no line feed follows is taken for one. -/
theorem templateBody?_carriageReturn (h : ∀ others, rest ≠ '\n' :: others) :
    templateBody? ('\r' :: rest) = (templateBody? rest).map (push '\n') := by
  rw [templateBody?]
  exact h

/-- A character is denoted by what is written for it, unless it is a carriage
return. -/
theorem templateBody?_escapedChar (h : c ≠ '\r') (rest : List Char) :
    templateBody? (Template.escapedChar c ++ rest) = (templateBody? rest).map (push c) := by
  rw [Template.escapedChar]
  split
  · rename_i hspecial
    simp only [Bool.or_eq_true, decide_eq_true_eq] at hspecial
    rcases hspecial with (rfl | rfl) | rfl <;> rfl
  · rename_i hplain
    simp only [Bool.or_eq_true, decide_eq_true_eq, not_or] at hplain
    obtain ⟨⟨hslash, hquote⟩, hdollar⟩ := hplain
    rw [List.singleton_append, templateBody?, if_neg hquote]
    · exact fun _ _ hc _ => hslash hc
    · exact fun _ hc _ => hdollar hc
    · exact fun _ hc _ => h hc
    · exact h

/-- What is written for a text begins with a line feed only where the text
does. -/
theorem flatMap_escapedChar_ne_cons (h : ∀ others, text ≠ '\n' :: others) (others : List Char) :
    text.flatMap Template.escapedChar ++ '\x60' :: rest ≠ '\n' :: others := by
  cases text with
  | nil => simp
  | cons c text =>
    have hc : c ≠ '\n' := fun hc => h text (by rw [hc])
    rw [List.flatMap_cons, Template.escapedChar]
    split <;> simp [hc]

/-- **What is written for a text between backquotes** denotes the text with
line feeds for its line ends. -/
theorem templateBody?_flatMap (text rest : List Char) :
    templateBody? (text.flatMap Template.escapedChar ++ '\x60' :: rest) =
      some (lineFeeds text, rest) := by
  have hreturn : Template.escapedChar '\r' = ['\r'] := rfl
  induction text using lineFeeds.induct with
  | case1 text ih =>
    have hfeed : Template.escapedChar '\n' = ['\n'] := rfl
    rw [List.flatMap_cons, List.flatMap_cons, hreturn, hfeed, List.singleton_append,
      List.singleton_append, List.cons_append, List.cons_append, templateBody?, ih, lineFeeds]
    rfl
  | case2 text hnext ih =>
    rw [List.flatMap_cons, hreturn, List.singleton_append, List.cons_append,
      templateBody?_carriageReturn (flatMap_escapedChar_ne_cons hnext), ih, lineFeeds]
    · rfl
    · exact hnext
  | case3 c text hpair hc ih =>
    rw [List.flatMap_cons, List.append_assoc, templateBody?_escapedChar hc, ih, lineFeeds]
    · rfl
    · exact hpair
    · exact hc
  | case4 => rfl

/-- **A rendered text without placeholders** denotes the text with line feeds
for its line ends. -/
theorem templateValue?_rendered {text : String} (h : Template.placeholders text = []) :
    templateValue? (Template.rendered text) = some (String.ofList (lineFeeds text.toList)) := by
  rw [templateValue?, Template.rendered, String.toList_ofList, Template.flatMap_render_segments h]
  exact congrArg whole? (templateBody?_flatMap text.toList [])

/-! ## The two encoders -/

/-- **The two literals of a text.** A text without placeholders is always
rendered. What it is quoted as denotes the text; what it is rendered as denotes
the text with line feeds for its line ends. So the two denote the same when
there is no carriage return in the text, and only then. -/
theorem same_value_iff (vars : VariableTable) {text : String}
    (h : Template.placeholders text = []) :
    ∃ template, Template.render text vars = .ok template ∧
      quotedValue? (Text.quote text) = some text ∧
      templateValue? template = some (String.ofList (lineFeeds text.toList)) ∧
      (templateValue? template = quotedValue? (Text.quote text) ↔ '\r' ∉ text.toList) := by
  have hrender : Template.render text vars = .ok (Template.rendered text) := by
    refine Template.render_eq_ok_iff.mpr ⟨fun name hname => ?_, rfl⟩
    rw [h] at hname
    cases hname
  have hquoted := quotedValue?_quote text
  have htemplate := templateValue?_rendered h
  refine ⟨_, hrender, hquoted, htemplate, ?_⟩
  rw [hquoted, htemplate, Option.some.injEq]
  constructor
  · intro heq hmem
    rw [← heq, String.toList_ofList] at hmem
    exact carriageReturn_not_mem_lineFeeds text.toList hmem
  · intro hmem
    rw [lineFeeds_eq_self hmem, String.ofList_toList]

/-- A text that goes over two lines, with characters that mean something in
either literal. -/
def twoLines : String := "it's $\x7bx\x7d\\\n\x60b"

/-- Both its literals denote the text. -/
theorem same_value_twoLines :
    ∃ template, Template.render twoLines .empty = .ok template ∧
      quotedValue? (Text.quote twoLines) = some twoLines ∧
      templateValue? template = some twoLines := by
  have hnone : Template.placeholders twoLines = [] := by decide +kernel
  obtain ⟨template, hrender, hquoted, -, hsame⟩ := same_value_iff .empty hnone
  have hplain : '\r' ∉ twoLines.toList := by decide
  exact ⟨template, hrender, hquoted, (hsame.mpr hplain).trans hquoted⟩

/-- **A carriage return is lost in a template**: the text is rendered with the
carriage return as it is, which denotes a line feed. -/
theorem carriageReturn_changes_value :
    Template.placeholders "a\rb" = [] ∧
      Template.render "a\rb" .empty = .ok "\x60a\rb\x60" ∧
      quotedValue? (Text.quote "a\rb") = some "a\rb" ∧
      templateValue? "\x60a\rb\x60" = some "a\nb" := by
  decide +kernel

end Script

end StepGraph
