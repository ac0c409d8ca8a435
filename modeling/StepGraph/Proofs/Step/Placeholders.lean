import StepGraph.Step.Template
import Mathlib.Data.List.DropRight
import Mathlib.Data.List.TakeWhile

/-!
# Where the placeholders of a text are

A placeholder is two opening braces, a content without a closing brace, and
two closing braces (`Template.Occurs`). The placeholders of a text are the
leftmost ones that do not overlap (`Template.Splits`), which cut every text in
one way (`splits_unique`), and the segments of the text are read off from there
(`exists_splits`).

A placeholder may also be looked for as a pattern: after the opening braces as
many blanks as there are, then as few characters as will do, then as many
blanks as there are, and where this fails the next best choice. What is found
first is the content without the blanks at its ends (`matched?_eq_some_iff`).
-/

namespace StepGraph.Template

variable {text before content after rest name : List Char} {c : Char}

/-! ## Occurrences -/

/-- A placeholder as it is written. -/
def marked (content : List Char) : List Char :=
  '\x7b' :: '\x7b' :: (content ++ ['\x7d', '\x7d'])

/-- **A placeholder occurs in a text**, between two parts of it. -/
structure Occurs (text before content after : List Char) : Prop where
  text_eq : text = before ++ (marked content ++ after)
  not_mem : '\x7d' ∉ content

/-- No character of a content is a closing brace. -/
theorem ne_closing (h : '\x7d' ∉ content) : ∀ c ∈ content, (c != '\x7d') = true := by
  intro c hc
  rw [bne_iff_ne]
  rintro rfl
  exact h hc

/-- A content ends at the first closing brace. -/
theorem takeWhile_content (h : '\x7d' ∉ content) (rest : List Char) :
    (content ++ '\x7d' :: rest).takeWhile (· != '\x7d') = content := by
  rw [List.takeWhile_append_of_pos (ne_closing h), List.takeWhile_cons_of_neg (by decide),
    List.append_nil]

/-- And there the closing braces begin. -/
theorem dropWhile_content (h : '\x7d' ∉ content) (rest : List Char) :
    (content ++ '\x7d' :: rest).dropWhile (· != '\x7d') = '\x7d' :: rest := by
  rw [List.dropWhile_append_of_pos (ne_closing h), List.dropWhile_cons_of_neg (by decide)]

/-- A placeholder with what follows it. -/
theorem marked_append (content after : List Char) :
    marked content ++ after =
      '\x7b' :: '\x7b' :: (content ++ '\x7d' :: '\x7d' :: after) := by
  rw [marked, List.cons_append, List.cons_append, List.append_assoc]
  rfl

/-- **A text begins with a placeholder** when one occurs with nothing before
it. -/
theorem placeholder?_eq_some_iff :
    placeholder? text = some (name, after) ↔
      ∃ content, Occurs text [] content after ∧ name = Text.trim content := by
  constructor
  · intro h
    unfold placeholder? at h
    split at h
    · rename_i rest
      split at h
      · rename_i tail htail
        cases h
        refine ⟨rest.takeWhile (· != '\x7d'), ⟨?_, fun hmem => ?_⟩, rfl⟩
        · rw [List.nil_append, marked_append, ← htail, List.takeWhile_append_dropWhile]
        · simpa using List.mem_takeWhile_imp hmem
      · cases h
    · cases h
  · rintro ⟨content, ⟨rfl, hcontent⟩, rfl⟩
    rw [List.nil_append, marked_append, placeholder?, dropWhile_content hcontent,
      takeWhile_content hcontent]
    rfl

/-- A text begins with no placeholder when none occurs with nothing before
it. -/
theorem not_occurs_of_placeholder?_eq_none (h : placeholder? text = none) :
    ¬ Occurs text [] content after := by
  intro hoccurs
  rw [placeholder?_eq_some_iff.mpr ⟨content, hoccurs, rfl⟩] at h
  cases h

/-- Nothing occurs in the empty text. -/
theorem not_occurs_nil : ¬ Occurs [] before content after := by
  rintro ⟨h, -⟩
  simp [marked] at h

/-- What occurs behind the first character occurs in the rest. -/
theorem occurs_cons_iff :
    Occurs (c :: rest) (c :: before) content after ↔ Occurs rest before content after := by
  constructor
  · rintro ⟨h, hcontent⟩
    exact ⟨List.tail_eq_of_cons_eq h, hcontent⟩
  · rintro ⟨rfl, hcontent⟩
    exact ⟨rfl, hcontent⟩

/-! ## Parts -/

/-- **A text in parts**: pieces of text, each with the placeholder behind it,
and the last piece. -/
structure Parts where
  front : List (List Char × List Char)
  last : List Char
  deriving DecidableEq, Repr

namespace Parts

/-- A character more at the beginning. -/
def push (c : Char) : Parts → Parts
  | ⟨[], last⟩ => ⟨[], c :: last⟩
  | ⟨(piece, content) :: front, last⟩ => ⟨(c :: piece, content) :: front, last⟩

/-- A placeholder more at the beginning. -/
def mark (content : List Char) (parts : Parts) : Parts :=
  ⟨([], content) :: parts.front, parts.last⟩

/-- The parts with the names of the placeholders in place of their contents. -/
def trimmed (parts : Parts) : Parts :=
  ⟨parts.front.map fun (piece, content) => (piece, Text.trim content), parts.last⟩

/-- The names of the placeholders, in order. -/
def names (parts : Parts) : List String :=
  parts.front.map fun (_, content) => String.ofList (Text.trim content)

variable {parts other : Parts}

@[simp] theorem trimmed_push (c : Char) (parts : Parts) :
    (parts.push c).trimmed = parts.trimmed.push c := by
  obtain ⟨front, last⟩ := parts
  cases front <;> rfl

@[simp] theorem trimmed_mark (content : List Char) (parts : Parts) :
    (parts.mark content).trimmed = parts.trimmed.mark (Text.trim content) := rfl

@[simp] theorem names_push (c : Char) (parts : Parts) : (parts.push c).names = parts.names := by
  obtain ⟨front, last⟩ := parts
  cases front <;> rfl

@[simp] theorem names_mark (content : List Char) (parts : Parts) :
    (parts.mark content).names = String.ofList (Text.trim content) :: parts.names := rfl

end Parts

/-! ## Leftmost placeholders -/

/-- **A placeholder that occurs before all others.** -/
structure Leftmost (text before content after : List Char) : Prop where
  occurs : Occurs text before content after
  first : ∀ before' content' after', Occurs text before' content' after' →
    before.length ≤ before'.length

/-- **The leftmost placeholders that do not overlap**, and the pieces of text
between them. -/
inductive Splits : List Char → Parts → Prop
  | last {text : List Char} : (∀ before content after, ¬ Occurs text before content after) →
      Splits text ⟨[], text⟩
  | next {text before content after : List Char} {parts : Parts} :
      Leftmost text before content after → Splits after parts →
      Splits text ⟨(before, content) :: parts.front, parts.last⟩

variable {parts other : Parts}

/-- No other placeholder is leftmost. -/
theorem Leftmost.unique {before' content' after' : List Char}
    (h : Leftmost text before content after) (h' : Leftmost text before' content' after') :
    before = before' ∧ content = content' ∧ after = after' := by
  obtain ⟨⟨rfl, hcontent⟩, hfirst⟩ := h
  obtain ⟨⟨htext, hcontent'⟩, hfirst'⟩ := h'
  have hlength : before.length = before'.length :=
    Nat.le_antisymm (hfirst _ _ _ ⟨htext, hcontent'⟩) (hfirst' _ _ _ ⟨rfl, hcontent⟩)
  obtain ⟨rfl, hmarked⟩ := List.append_inj htext hlength
  refine ⟨rfl, ?_⟩
  -- the content ends with the first closing brace in both
  rw [marked_append, marked_append, List.cons.injEq, List.cons.injEq] at hmarked
  obtain ⟨-, -, hrest⟩ := hmarked
  have hsame := congrArg (List.takeWhile (· != '\x7d')) hrest
  rw [takeWhile_content hcontent, takeWhile_content hcontent'] at hsame
  subst hsame
  exact ⟨rfl, by simpa using hrest⟩

/-- **A text is cut in one way.** -/
theorem splits_unique (h : Splits text parts) (h' : Splits text other) : other = parts := by
  induction h generalizing other with
  | last hnone =>
    cases h' with
    | last => rfl
    | next hleftmost => exact absurd hleftmost.occurs (hnone _ _ _)
  | next hleftmost _ ih =>
    cases h' with
    | last hnone => exact absurd hleftmost.occurs (hnone _ _ _)
    | next hleftmost' hrest =>
      obtain ⟨rfl, rfl, rfl⟩ := hleftmost.unique hleftmost'
      rw [ih hrest]

/-- A placeholder at the beginning is cut off first. -/
theorem Splits.mark (hoccurs : Occurs text [] content after) (h : Splits after parts) :
    Splits text (parts.mark content) :=
  .next ⟨hoccurs, fun _ _ _ _ => Nat.zero_le _⟩ h

/-- Where none is at the beginning, the first character belongs to the first
piece. -/
theorem Splits.push (hnone : placeholder? (c :: rest) = none) (h : Splits rest parts) :
    Splits (c :: rest) (parts.push c) := by
  cases h with
  | last hrest =>
    refine .last fun before content after hoccurs => ?_
    cases before with
    | nil => exact not_occurs_of_placeholder?_eq_none hnone hoccurs
    | cons b before =>
      obtain rfl : c = b := List.head_eq_of_cons_eq hoccurs.text_eq
      exact hrest _ _ _ (occurs_cons_iff.mp hoccurs)
  | next hleftmost hsplits =>
    refine .next ⟨occurs_cons_iff.mpr hleftmost.occurs, fun before content after hoccurs => ?_⟩
      hsplits
    cases before with
    | nil => exact absurd hoccurs (not_occurs_of_placeholder?_eq_none hnone)
    | cons b before =>
      obtain rfl : c = b := List.head_eq_of_cons_eq hoccurs.text_eq
      exact Nat.succ_le_succ (hleftmost.first _ _ _ (occurs_cons_iff.mp hoccurs))

/-! ## Segments -/

/-- The parts that segments make up, with names for contents. -/
def partsOf : List Segment → Parts
  | [] => ⟨[], []⟩
  | .literal c :: rest => (partsOf rest).push c
  | .placeholder name :: rest => (partsOf rest).mark name

/-- **The segments of a text are its parts**, the names of the placeholders
being their trimmed contents. -/
theorem exists_splits (text : List Char) :
    ∃ parts, Splits text parts ∧ partsOf (segments text) = parts.trimmed ∧
      (segments text).filterMap Segment.name? = parts.names := by
  induction text using segments.induct with
  | case1 =>
    rw [segments]
    exact ⟨⟨[], []⟩, .last fun _ _ _ => not_occurs_nil, rfl, rfl⟩
  | case2 c rest name after hfound ih =>
    obtain ⟨parts, hsplits, hparts, hnames⟩ := ih
    obtain ⟨content, hoccurs, rfl⟩ := placeholder?_eq_some_iff.mp hfound
    refine ⟨parts.mark content, hsplits.mark hoccurs, ?_, ?_⟩
    · rw [segments, hfound, partsOf, hparts, Parts.trimmed_mark]
    · rw [segments, hfound, List.filterMap_cons, Segment.name?, hnames, Parts.names_mark]
  | case3 c rest hnone ih =>
    obtain ⟨parts, hsplits, hparts, hnames⟩ := ih
    refine ⟨parts.push c, hsplits.push hnone, ?_, ?_⟩
    · rw [segments, hnone, partsOf, hparts, Parts.trimmed_push]
    · rw [segments, hnone, List.filterMap_cons, Segment.name?, hnames, Parts.names_push]

/-! ## The pattern -/

/-- The ways to take a run of characters off a text, the shortest first. -/
def runs (p : Char → Bool) : List Char → List (List Char × List Char)
  | [] => [([], [])]
  | c :: cs =>
    ([], c :: cs) :: if p c then (runs p cs).map fun split => (c :: split.1, split.2) else []

/-- What follows two closing braces. -/
def closed? : List Char → Option (List Char)
  | '\x7d' :: '\x7d' :: after => some after
  | _ => none

/-- Blanks up to two closing braces, as many as will do. -/
def trailing? (behind : List Char) : Option (List Char) :=
  (runs Text.isBlank behind).reverse.findSome? fun split => closed? split.2

/-- A name, as short as will do, and what follows the placeholder. -/
def named? (body : List Char) : Option (List Char × List Char) :=
  (runs (· != '\x7d') body).findSome? fun split =>
    (trailing? split.2).map fun after => (split.1, after)

/-- **The pattern of a placeholder**, matched at the beginning of a text: the
name, and what follows the placeholder. The blanks before the name are as many
as will do, and every choice is tried until the rest of the pattern matches. -/
def matched? : List Char → Option (List Char × List Char)
  | '\x7b' :: '\x7b' :: body =>
    (runs Text.isBlank body).reverse.findSome? fun split => named? split.2
  | _ => none

variable {p : Char → Bool} {run body behind blanks : List Char}

/-- A run is of the characters that it may be of. -/
theorem mem_runs (h : (run, rest) ∈ runs p text) : text = run ++ rest ∧ ∀ c ∈ run, p c = true := by
  induction text generalizing run with
  | nil =>
    cases List.mem_singleton.mp h
    exact ⟨rfl, fun _ hc => (by cases hc)⟩
  | cons c cs ih =>
    rw [runs, List.mem_cons] at h
    rcases h with h | h
    · cases h
      exact ⟨rfl, fun _ hc => (by cases hc)⟩
    · split at h
      · rename_i hp
        obtain ⟨⟨shorter, rest⟩, hmem, heq⟩ := List.mem_map.mp h
        cases heq
        obtain ⟨rfl, hall⟩ := ih hmem
        exact ⟨rfl, List.forall_mem_cons.mpr ⟨hp, hall⟩⟩
      · cases h

/-- The longest run comes last. -/
theorem getLast?_runs (p : Char → Bool) (text : List Char) :
    (runs p text).getLast? = some (text.takeWhile p, text.dropWhile p) := by
  induction text with
  | nil => rfl
  | cons c cs ih =>
    rw [runs]
    by_cases hp : p c = true
    · simp [hp, List.getLast?_cons, ih]
    · simp [hp]

/-- **What succeeds with the longest run** is found first from that end. -/
theorem findSome?_reverse_runs {α : Type} {f : List Char × List Char → Option α} {a : α}
    (h : f (text.takeWhile p, text.dropWhile p) = some a) :
    (runs p text).reverse.findSome? f = some a := by
  have hhead : (runs p text).reverse.head? = some (text.takeWhile p, text.dropWhile p) := by
    rw [List.head?_reverse, getLast?_runs]
  cases hruns : (runs p text).reverse with
  | nil =>
    rw [hruns] at hhead
    cases hhead
  | cons first others =>
    rw [hruns, List.head?_cons, Option.some.injEq] at hhead
    rw [List.findSome?_cons, hhead, h]

/-- A closing brace is not blank. -/
theorem not_mem_of_blank (h : ∀ c ∈ blanks, Text.isBlank c = true) : '\x7d' ∉ blanks :=
  fun hmem => absurd (h _ hmem) (by decide)

/-- Blanks at the beginning end with the content at the latest. -/
theorem dropWhile_blank_append (content rest : List Char) :
    (content ++ '\x7d' :: rest).dropWhile Text.isBlank =
      content.dropWhile Text.isBlank ++ '\x7d' :: rest := by
  rw [List.dropWhile_append]
  split
  · rename_i hempty
    rw [List.isEmpty_iff.mp hempty, List.dropWhile_cons_of_neg (by decide), List.nil_append]
  · rfl

theorem closed?_eq_some_iff : closed? text = some after ↔ text = '\x7d' :: '\x7d' :: after := by
  unfold closed?
  split <;> simp_all

/-- Blanks before closing braces are what the end of the pattern matches. -/
theorem trailing?_eq_some_iff :
    trailing? behind = some after ↔
      ∃ blanks, behind = blanks ++ '\x7d' :: '\x7d' :: after ∧
        ∀ c ∈ blanks, Text.isBlank c = true := by
  constructor
  · intro h
    obtain ⟨⟨blanks, rest⟩, hmem, hclosed⟩ := List.exists_of_findSome?_eq_some h
    obtain ⟨rfl, hblank⟩ := mem_runs (List.mem_reverse.mp hmem)
    obtain rfl : rest = _ := closed?_eq_some_iff.mp hclosed
    exact ⟨blanks, rfl, hblank⟩
  · rintro ⟨blanks, rfl, hblank⟩
    refine findSome?_reverse_runs (closed?_eq_some_iff.mpr ?_)
    rw [dropWhile_blank_append, List.dropWhile_eq_nil_iff.mpr hblank, List.nil_append]

/-- What the pattern takes behind its opening braces is a content, and the
closing braces behind it. -/
theorem exists_of_named? (h : named? body = some (name, after)) :
    ∃ content, body = content ++ '\x7d' :: '\x7d' :: after ∧ '\x7d' ∉ content := by
  obtain ⟨⟨found, behind⟩, hmem, hrest⟩ := List.exists_of_findSome?_eq_some h
  obtain ⟨rest, htrailing, heq⟩ := Option.map_eq_some_iff.mp hrest
  cases heq
  obtain ⟨rfl, hname⟩ := mem_runs hmem
  obtain ⟨blanks, rfl, hblank⟩ := trailing?_eq_some_iff.mp htrailing
  refine ⟨found ++ blanks, by rw [List.append_assoc], fun hbrace => ?_⟩
  rcases List.mem_append.mp hbrace with hbrace | hbrace
  · simpa using hname _ hbrace
  · exact not_mem_of_blank hblank hbrace

/-- Without the blanks at its end a text keeps its first character, unless it
is blank throughout. -/
theorem rdropWhile_cons (h : ¬ ∀ d ∈ c :: rest, p d = true) :
    (c :: rest).rdropWhile p = c :: rest.rdropWhile p := by
  rw [List.rdropWhile, List.rdropWhile, List.reverse_cons, List.dropWhile_append]
  split
  · rename_i hempty
    rw [List.isEmpty_iff, List.dropWhile_eq_nil_iff] at hempty
    have hc : p c = false := by
      by_contra hc
      refine h (List.forall_mem_cons.mpr ⟨by simpa using hc, fun d hd => ?_⟩)
      exact hempty d (List.mem_reverse.mpr hd)
    rw [List.dropWhile_cons_of_neg (by simp [hc]), List.dropWhile_eq_nil_iff.mpr hempty]
    rfl
  · rw [List.reverse_append]
    rfl

/-- A name is tried with no character before it is tried with one. -/
theorem named?_cons (hc : c ≠ '\x7d') (body : List Char) :
    named? (c :: body) = ((trailing? (c :: body)).map fun after => ([], after)).or
      ((named? body).map fun found => (c :: found.1, found.2)) := by
  rw [named?, runs, List.findSome?_cons, if_pos (by simpa using hc), List.findSome?_map, named?]
  cases trailing? (c :: body) with
  | some after => rfl
  | none =>
    rw [Option.map_none, Option.none_or, List.map_findSome?]
    refine congrArg (List.findSome? · _) (funext fun split => ?_)
    exact (Option.map_map (fun found => (c :: found.1, found.2)) (fun after => (split.1, after))
      (trailing? split.2)).symm

/-- **The shortest name that will do** is the content without the blanks at its
end. -/
theorem named?_content (h : '\x7d' ∉ content) (after : List Char) :
    named? (content ++ '\x7d' :: '\x7d' :: after) =
      some (content.rdropWhile Text.isBlank, after) := by
  induction content with
  | nil => rfl
  | cons c content ih =>
    obtain ⟨hc, hcontent⟩ := not_or.mp (mt List.mem_cons.mpr h)
    rw [List.cons_append, named?_cons (Ne.symm hc), ih hcontent]
    by_cases hblank : ∀ d ∈ c :: content, Text.isBlank d = true
    · -- nothing but blanks is left, so no name at all will do
      have htrailing : trailing? (c :: (content ++ '\x7d' :: '\x7d' :: after)) = some after :=
        trailing?_eq_some_iff.mpr ⟨c :: content, rfl, hblank⟩
      rw [htrailing, List.rdropWhile_eq_nil_iff.mpr hblank]
      rfl
    · have htrailing : trailing? (c :: (content ++ '\x7d' :: '\x7d' :: after)) = none := by
        rw [Option.eq_none_iff_forall_ne_some]
        intro after' hsome
        obtain ⟨blanks, heq, hall⟩ := trailing?_eq_some_iff.mp hsome
        have hsame := congrArg (List.takeWhile (· != '\x7d')) heq
        rw [← List.cons_append, takeWhile_content h,
          takeWhile_content (not_mem_of_blank hall)] at hsame
        exact hblank (hsame ▸ hall)
      rw [htrailing, rdropWhile_cons hblank]
      rfl

/-- Where the pattern matches a placeholder begins. -/
theorem exists_occurs_of_matched? (h : matched? text = some (name, after)) :
    ∃ content, Occurs text [] content after := by
  unfold matched? at h
  split at h
  · rename_i body
    obtain ⟨⟨blanks, rest⟩, hmem, hnamed⟩ := List.exists_of_findSome?_eq_some h
    obtain ⟨rfl, hblank⟩ := mem_runs (List.mem_reverse.mp hmem)
    obtain ⟨content, rfl, hcontent⟩ := exists_of_named? hnamed
    refine ⟨blanks ++ content, ?_, fun hbrace => ?_⟩
    · rw [List.nil_append, marked_append, List.append_assoc]
    · rcases List.mem_append.mp hbrace with hbrace | hbrace
      · exact not_mem_of_blank hblank hbrace
      · exact hcontent hbrace
  · cases h

/-- **The pattern finds the placeholder that a text begins with**, and its
name. -/
theorem matched?_eq_placeholder? (text : List Char) : matched? text = placeholder? text := by
  cases hfound : placeholder? text with
  | some found =>
    obtain ⟨name, after⟩ := found
    obtain ⟨content, ⟨rfl, hcontent⟩, rfl⟩ := placeholder?_eq_some_iff.mp hfound
    have hrest : '\x7d' ∉ content.dropWhile Text.isBlank := fun hbrace =>
      hcontent ((List.dropWhile_sublist _).subset hbrace)
    rw [List.nil_append, marked_append, matched?]
    refine findSome?_reverse_runs ?_
    dsimp only
    rw [dropWhile_blank_append, named?_content hrest]
    rfl
  | none =>
    rw [Option.eq_none_iff_forall_ne_some]
    rintro ⟨name, after⟩ hmatched
    obtain ⟨content, hoccurs⟩ := exists_occurs_of_matched? hmatched
    exact not_occurs_of_placeholder?_eq_none hfound hoccurs

/-- **The pattern matches where a placeholder begins**, and takes its name. -/
theorem matched?_eq_some_iff :
    matched? text = some (name, after) ↔
      ∃ content, Occurs text [] content after ∧ name = Text.trim content := by
  rw [matched?_eq_placeholder?, placeholder?_eq_some_iff]

end StepGraph.Template
