import StepGraph.Proofs.Names.Table
import StepGraph.Proofs.Step.References
import StepGraph.Proofs.Text.Quoted
import Mathlib.Data.List.Forall2

/-!
# What a script shows outside its literals

A script is scanned from left to right. A single quote or a backquote opens
a literal, a backslash inside takes the next character, and the same quote
closes the literal; between backquotes, `$` with a name in braces is a
substitution. What lies outside the literals is what a reader of the script
takes for code (`exposed?`).

Scanning goes through code piece by piece (`exposed?_append`). A quoted text
and a template are whole literals, whatever their texts: nothing in them
closes them early (`exposed?_quote`, `exposed?_render`).
-/

namespace StepGraph

namespace Script

/-- Where a scanner stands: outside the literals, in a literal that `quote`
closes, behind a backslash in it, and in a template behind a dollar sign,
behind the brace of a substitution, and in its name. -/
inductive Scan where
  | code
  | literal (quote : Char)
  | escaped (quote : Char)
  | dollar
  | brace
  | name
  deriving DecidableEq

namespace Scan

/-- How a character of a literal is taken. -/
def within (quote c : Char) : Scan :=
  if c = '\\' then escaped quote
  else if c = quote then code
  else if c = '$' ∧ quote = '\x60' then dollar
  else literal quote

/-- **One step of the scanner.** A substitution has to be a name. -/
def next? : Scan → Char → Option Scan
  | code, c => some (if c = '\'' ∨ c = '\x60' then literal c else code)
  | literal quote, c => some (within quote c)
  | escaped quote, _ => some (literal quote)
  | dollar, c => some (if c = '\x7b' then brace else within '\x60' c)
  | brace, c => if startsIdentifier c then some name else none
  | name, c =>
    if c = '\x7d' then some (literal '\x60')
    else if continuesIdentifier c then some name else none

/-- The characters outside the literals, together with the quotes around
each; there is no answer when a literal stays open or a substitution is not
a name. -/
def outside? : Scan → List Char → Option (List Char)
  | scan, [] => if scan = code then some [] else none
  | scan, c :: rest => do
    let after ← scan.next? c
    let shown ← after.outside? rest
    return if scan = code ∨ after = code then c :: shown else shown

end Scan

/-- A character that opens no literal. -/
def isPlain (c : Char) : Bool :=
  c != '\'' && c != '\x60'

/-- **A script with its literals emptied**, or nothing when a literal stays
open or a substitution is not a name. -/
def exposed? (text : String) : Option String :=
  (Scan.code.outside? text.toList).map String.ofList

/-- Placeholders and the names in a header object stay out of sight, as
does a quote behind a backslash. -/
example : exposed? "f('it\\'s', \x60\\$\\\x60$\x7bname\x7d\x60)" = some "f('', \x60\x60)" ∧
    exposed? "f('it\\')" = none := by decide

/-! ## Piece by piece -/

namespace Scan

variable {scan after : Scan} {text rest shown more : List Char} {quote c : Char}

/-- A text that ends outside the literals can be followed by any other. -/
theorem outside?_append (h : scan.outside? text = some shown)
    (hrest : code.outside? rest = some more) :
    scan.outside? (text ++ rest) = some (shown ++ more) := by
  induction text generalizing scan shown with
  | nil =>
    rw [outside?, Option.ite_none_right_eq_some] at h
    obtain ⟨rfl, hnil⟩ := h
    rw [List.nil_append, hrest, ← Option.some.inj hnil, List.nil_append]
  | cons c text ih =>
    rw [outside?, Option.bind_eq_bind, Option.bind_eq_some_iff] at h
    obtain ⟨after, hnext, h⟩ := h
    rw [Option.bind_eq_bind, Option.bind_eq_some_iff] at h
    obtain ⟨inner, hinner, h⟩ := h
    rw [← Option.some.inj h, List.cons_append, outside?, hnext, Option.bind_eq_bind,
      Option.bind_some, ih hinner, Option.bind_eq_bind, Option.bind_some]
    split <;> rfl

/-- Text without quotes is code as it stands. -/
theorem outside?_of_plain (h : text.all isPlain = true) : code.outside? text = some text := by
  induction text with
  | nil => rfl
  | cons c text ih =>
    rw [List.all_cons, Bool.and_eq_true, isPlain, Bool.and_eq_true, bne_iff_ne, bne_iff_ne] at h
    obtain ⟨hc, htext⟩ := h
    rw [outside?, next?, if_neg (not_or.mpr hc), Option.bind_eq_bind, Option.bind_some, ih htext]
    rfl

/-! ## Inside a literal -/

/-- Inside a literal a character is passed over. -/
theorem outside?_cons_inside (hnext : scan.next? c = some after) (hscan : scan ≠ code)
    (hafter : after ≠ code) (rest : List Char) :
    scan.outside? (c :: rest) = after.outside? rest := by
  have hshown : ¬ (scan = code ∨ after = code) := not_or.mpr ⟨hscan, hafter⟩
  rw [outside?, hnext, Option.bind_eq_bind, Option.bind_some]
  simp [if_neg hshown]

/-- A character that is no quote, backslash or dollar sign keeps a literal
open. -/
theorem outside?_literal_cons (h : within quote c = literal quote) (rest : List Char) :
    (literal quote).outside? (c :: rest) = (literal quote).outside? rest := by
  have hnext : (literal quote).next? c = some (literal quote) := congrArg some h
  exact outside?_cons_inside hnext Scan.noConfusion Scan.noConfusion rest

/-- So does a backslash with whatever stands behind it. -/
theorem outside?_literal_escape (quote c : Char) (rest : List Char) :
    (literal quote).outside? ('\\' :: c :: rest) = (literal quote).outside? rest := by
  have hslash : (literal quote).next? '\\' = some (escaped quote) :=
    congrArg some (if_pos rfl)
  rw [outside?_cons_inside hslash Scan.noConfusion Scan.noConfusion,
    outside?_cons_inside rfl Scan.noConfusion Scan.noConfusion]

/-- The name of a substitution is read up to the brace. -/
theorem outside?_name {cs : List Char} (h : cs.all continuesIdentifier = true)
    (rest : List Char) :
    name.outside? (cs ++ '\x7d' :: rest) = (literal '\x60').outside? rest := by
  induction cs with
  | nil =>
    have hclose : name.next? '\x7d' = some (literal '\x60') := by decide
    exact outside?_cons_inside hclose Scan.noConfusion Scan.noConfusion rest
  | cons c cs ih =>
    rw [List.all_cons, Bool.and_eq_true] at h
    have hbrace : c ≠ '\x7d' := by
      rintro rfl
      exact absurd h.1 (by decide)
    have hnext : name.next? c = some name := (if_neg hbrace).trans (if_pos h.1)
    rw [List.cons_append, outside?_cons_inside hnext Scan.noConfusion Scan.noConfusion, ih h.2]

/-- A substitution of a name keeps a template open. -/
theorem outside?_substitution {cs : List Char} (h : isIdentifier (String.ofList cs) = true)
    (rest : List Char) :
    (literal '\x60').outside? ('$' :: '\x7b' :: (cs ++ '\x7d' :: rest)) =
      (literal '\x60').outside? rest := by
  rw [isIdentifier, String.toList_ofList] at h
  cases cs with
  | nil => cases h
  | cons first others =>
    rw [Bool.and_eq_true] at h
    have hdollar : (literal '\x60').next? '$' = some dollar := by decide
    have hbrace : dollar.next? '\x7b' = some brace := by decide
    have hfirst : brace.next? first = some name := if_pos h.1
    rw [outside?_cons_inside hdollar Scan.noConfusion Scan.noConfusion,
      outside?_cons_inside hbrace Scan.noConfusion Scan.noConfusion, List.cons_append,
      outside?_cons_inside hfirst Scan.noConfusion Scan.noConfusion, outside?_name h.2]

/-- **A literal of pieces that keep it open** is a whole literal. -/
theorem outside?_flatMap {α : Type} {pieces : List α} {write : α → List Char}
    (hquote : quote = '\'' ∨ quote = '\x60')
    (h : ∀ piece ∈ pieces, ∀ rest,
      (literal quote).outside? (write piece ++ rest) = (literal quote).outside? rest) :
    code.outside? (quote :: (pieces.flatMap write ++ [quote])) = some [quote, quote] := by
  have hclosed : (literal quote).outside? (pieces.flatMap write ++ [quote]) = some [quote] := by
    induction pieces with
    | nil => rcases hquote with rfl | rfl <;> rfl
    | cons piece pieces ih =>
      obtain ⟨hpiece, hpieces⟩ := List.forall_mem_cons.mp h
      rw [List.flatMap_cons, List.append_assoc, hpiece, ih hpieces]
  rw [outside?, next?, if_pos hquote, Option.bind_eq_bind, Option.bind_some, hclosed]
  rfl

end Scan

/-! ## Texts -/

variable {text rest shown more : String}

/-- **Code is scanned piece by piece.** -/
theorem exposed?_append (h : exposed? text = some shown) (hrest : exposed? rest = some more) :
    exposed? (text ++ rest) = some (shown ++ more) := by
  obtain ⟨cs, hcs, rfl⟩ := Option.map_eq_some_iff.mp h
  obtain ⟨more, hmore, rfl⟩ := Option.map_eq_some_iff.mp hrest
  rw [exposed?, String.toList_append, Scan.outside?_append hcs hmore, Option.map_some,
    String.ofList_append]

/-- So are fragments of code, one after the other. -/
theorem exposed?_join {texts shown : List String}
    (h : List.Forall₂ (fun text shown => exposed? text = some shown) texts shown) :
    exposed? (String.join texts) = some (String.join shown) := by
  induction h with
  | nil => decide
  | cons htext _ ih =>
    rw [String.join_cons, String.join_cons]
    exact exposed?_append htext ih

/-- So are parts with a separator, each of which shows the same. -/
theorem exposed?_intercalate {separator : String} (hseparator : exposed? separator = some separator)
    {parts : List String} (h : ∀ part ∈ parts, exposed? part = some shown) :
    exposed? (separator.intercalate parts) =
      some (separator.intercalate (List.replicate parts.length shown)) := by
  induction parts with
  | nil => rfl
  | cons part parts ih =>
    obtain ⟨hpart, hparts⟩ := List.forall_mem_cons.mp h
    cases parts with
    | nil => simpa using hpart
    | cons next parts =>
      have htail := ih hparts
      simp only [List.length_cons, List.replicate_succ, String.intercalate_cons_cons] at htail ⊢
      exact exposed?_append (exposed?_append hpart hseparator) htail

/-- A text without quotes, told from its characters. -/
theorem isPlain_ofList {cs : List Char} (h : cs.all isPlain = true) :
    (String.ofList cs).toList.all isPlain = true := by
  rwa [String.toList_ofList]

/-- Text without quotes is code as it stands. -/
theorem exposed?_of_plain (text : String) (h : text.toList.all isPlain = true) :
    exposed? text = some text := by
  rw [exposed?, Scan.outside?_of_plain h, Option.map_some, String.ofList_toList]

/-- What has no quotes shows behind any code. -/
theorem exposed?_append_plain (h : exposed? text = some shown) (after : String)
    (hafter : after.toList.all isPlain = true) :
    exposed? (text ++ after) = some (shown ++ after) :=
  exposed?_append h (exposed?_of_plain after hafter)

/-- What stands between two pieces of code without quotes shows between
them. -/
theorem exposed?_between (before after : String) (hbefore : before.toList.all isPlain = true)
    (h : exposed? text = some shown) (hafter : after.toList.all isPlain = true) :
    exposed? (before ++ text ++ after) = some (before ++ shown ++ after) :=
  exposed?_append_plain (exposed?_append (exposed?_of_plain before hbefore) h) after hafter

/-- A name has no quotes. -/
theorem exposed?_identifier (h : isIdentifier text = true) : exposed? text = some text := by
  refine exposed?_of_plain text (List.all_eq_true.mpr fun c hc => ?_)
  have hcontinues := continuesIdentifier_of_mem h hc
  rw [isPlain, Bool.and_eq_true, bne_iff_ne, bne_iff_ne]
  constructor <;> rintro rfl <;> exact absurd hcontinues (by decide)

/-- **A quoted text is a whole literal**, whatever the text. -/
theorem exposed?_quote (text : String) : exposed? (Text.quote text) = some "''" := by
  have hinside : ∀ c ∈ text.toList, ∀ rest,
      (Scan.literal '\'').outside? (Text.quotedChar c ++ rest) =
        (Scan.literal '\'').outside? rest := by
    intro c _ rest
    rcases Text.quotedChar_cases c with ⟨escape, hwritten, -⟩ | ⟨hself, hslash, hquote, -⟩
    · rw [hwritten]
      exact Scan.outside?_literal_escape _ _ _
    · rw [hself]
      refine Scan.outside?_literal_cons ?_ rest
      rw [Scan.within, if_neg hslash, if_neg hquote, if_neg (fun h => absurd h.2 (by decide))]
  rw [exposed?, Text.quote, String.toList_ofList, Scan.outside?_flatMap (.inl rfl) hinside]
  rfl

end Script

/-! ## Templates -/

/-- **A resolvable name is an identifier.** -/
theorem VariableTable.isIdentifier_of_isResolvable {vars : VariableTable} (h : vars.WellFormed)
    {name : String} (hname : vars.isResolvable name = true) : Script.isIdentifier name = true := by
  rw [isResolvable, Bool.or_eq_true] at hname
  rcases hname with hname | hname
  · obtain ⟨v, hv, rfl⟩ := List.mem_map.mp (h.contains_iff.mp hname)
    exact (Variable.check_eq_ok_iff.mp (h.allowed v hv)).1
  · have hambient : ∀ name ∈ Script.ambientNames, Script.isIdentifier name = true := by decide
    exact hambient name (List.contains_iff_mem.mp hname)

namespace Template

/-- **A rendered text is a whole literal**, whatever the text: what it may
substitute are names. -/
theorem exposed?_render {text result : String} {vars : VariableTable} (hvars : vars.WellFormed)
    (h : render text vars = .ok result) : Script.exposed? result = some "\x60\x60" := by
  obtain ⟨hnames, rfl⟩ := render_eq_ok_iff.mp h
  have hinside : ∀ segment ∈ segments text.toList, ∀ rest,
      (Script.Scan.literal '\x60').outside? (segment.render ++ rest) =
        (Script.Scan.literal '\x60').outside? rest := by
    intro segment hsegment rest
    cases segment with
    | literal c =>
      rw [Segment.render, escapedChar]
      split
      · exact Script.Scan.outside?_literal_escape _ _ _
      · rename_i hplain
        simp only [Bool.or_eq_true, decide_eq_true_eq, not_or] at hplain
        obtain ⟨⟨hslash, hquote⟩, hdollar⟩ := hplain
        refine Script.Scan.outside?_literal_cons ?_ rest
        rw [Script.Scan.within, if_neg hslash, if_neg hquote, if_neg (fun h => hdollar h.1)]
    | placeholder name =>
      have hname : vars.isResolvable (String.ofList name) = true :=
        hnames _ (List.mem_filterMap.mpr ⟨_, hsegment, rfl⟩)
      rw [Segment.render, List.cons_append, List.cons_append, List.append_assoc,
        List.singleton_append]
      have hidentifier := VariableTable.isIdentifier_of_isResolvable hvars hname
      exact Script.Scan.outside?_substitution hidentifier rest
  rw [Script.exposed?, rendered, String.toList_ofList,
    Script.Scan.outside?_flatMap (.inr rfl) hinside]
  rfl

end Template

end StepGraph
