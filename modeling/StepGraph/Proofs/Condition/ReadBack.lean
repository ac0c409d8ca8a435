import StepGraph.Kind.Builtin
import StepGraph.Proofs.Script.Reading
import StepGraph.Proofs.Step.Exposed

/-!
# Conditions, read back

A condition is cut at the connectors that stand outside its literals
(`Condition.split`), and each part is read as a comparison
(`Comparison.read?`). What stands between connectors keeps the scanner outside
its literals and shows it no connector (`Condition.Whole`); so the condition of
a conditional that validates, with texts and names for operands, gives back its
connectors and its comparisons (`condition_reads_back`), and no text adds,
removes or changes one.
-/

namespace StepGraph

open Reading (dropFront? dropFront?_eq_some_iff)

variable {piece other rest : List Char} {c : Char}

/-! ## Cutting -/

namespace Condition

/-- Where a scanner stands: outside the literals, inside one, or behind a
backslash in it. -/
inductive Place where
  | outside
  | inside
  | escaped
  deriving DecidableEq

/-- A single quote opens a literal and closes it. -/
def Place.next : Place → Char → Place
  | outside, c => if c = '\'' then inside else outside
  | inside, c => if c = '\\' then escaped else if c = '\'' then outside else inside
  | escaped, _ => inside

/-- A condition in pieces: the first, and the others with the connectors in
front of them. -/
structure Pieces where
  first : List Char
  others : List (Connector × List Char)
  deriving DecidableEq

namespace Pieces

/-- Text in front of the first piece. -/
def prepend (text : List Char) (pieces : Pieces) : Pieces :=
  ⟨text ++ pieces.first, pieces.others⟩

/-- A connector in front of the first piece. -/
def behind (connector : Connector) (pieces : Pieces) : Pieces :=
  ⟨[], (connector, pieces.first) :: pieces.others⟩

/-- The pieces without the connectors. -/
def parts (pieces : Pieces) : List (List Char) :=
  pieces.first :: pieces.others.map Prod.snd

def connectors (pieces : Pieces) : List Connector :=
  pieces.others.map Prod.fst

theorem prepend_prepend (text more : List Char) (pieces : Pieces) :
    (pieces.prepend more).prepend text = pieces.prepend (text ++ more) := by
  rw [prepend, prepend, prepend, List.append_assoc]

end Pieces

/-- **A condition cut at its connectors**, which stand between blanks outside
the literals. -/
def split : Place → List Char → Pieces
  | .outside, ' ' :: '&' :: '&' :: ' ' :: rest => (split .outside rest).behind .and
  | .outside, ' ' :: '|' :: '|' :: ' ' :: rest => (split .outside rest).behind .or
  | place, c :: rest => (split (place.next c) rest).prepend [c]
  | _, [] => ⟨[], []⟩

/-- A connector inside a literal is none. -/
example : split .outside "a == ' && ' || !b".toList =
    ⟨"a == ' && '".toList, [(.or, "!b".toList)]⟩ := by decide

/-- Inside a literal no connector is seen. -/
theorem split_cons_of_ne_outside {place : Place} (h : place ≠ .outside) (rest : List Char) :
    split place (c :: rest) = (split (place.next c) rest).prepend [c] := by
  rw [split]
  · exact fun _ hplace _ _ => h hplace
  · exact fun _ hplace _ _ => h hplace

theorem split_inside_cons (c : Char) (rest : List Char) :
    split .inside (c :: rest) = (split (Place.inside.next c) rest).prepend [c] :=
  split_cons_of_ne_outside (by decide) rest

theorem split_escaped_cons (c : Char) (rest : List Char) :
    split .escaped (c :: rest) = (split .inside rest).prepend [c] :=
  split_cons_of_ne_outside (by decide) rest

/-- A connector begins with a blank. -/
theorem split_outside_cons (h : c ≠ ' ') (rest : List Char) :
    split .outside (c :: rest) = (split (Place.outside.next c) rest).prepend [c] := by
  rw [split]
  · exact fun _ _ hc _ => h hc
  · exact fun _ _ hc _ => h hc

/-- Behind the blank stands the sign of a connector. -/
theorem split_outside_blank (hand : c ≠ '&') (hor : c ≠ '|') (rest : List Char) :
    split .outside (' ' :: c :: rest) = (split .outside (c :: rest)).prepend [' '] := by
  rw [split]
  · rfl
  · rintro _ - - ⟨⟩
    exact hand rfl
  · rintro _ - - ⟨⟩
    exact hor rfl

/-- **Text without a connector**: the scanner goes through it and stands outside
the literals again, whatever follows. -/
def Whole (piece : List Char) : Prop :=
  ∀ rest, split .outside (piece ++ rest) = (split .outside rest).prepend piece

theorem Whole.append (h : Whole piece) (hother : Whole other) : Whole (piece ++ other) := by
  intro rest
  rw [List.append_assoc, h, hother, Pieces.prepend_prepend]

/-- Text without blanks and quotes has no connector. -/
theorem whole_of_forall (h : ∀ c ∈ piece, c ≠ ' ' ∧ c ≠ '\'') : Whole piece := by
  induction piece with
  | nil => exact fun rest => rfl
  | cons c piece ih =>
    obtain ⟨⟨hblank, hquote⟩, hpiece⟩ := List.forall_mem_cons.mp h
    intro rest
    rw [List.cons_append, split_outside_cons hblank, Place.next, if_neg hquote, ih hpiece,
      Pieces.prepend_prepend, List.singleton_append]

/-- A blank may stand in front of what is no sign of a connector. -/
theorem Whole.blank (h : Whole (c :: piece)) (hand : c ≠ '&') (hor : c ≠ '|') :
    Whole (' ' :: c :: piece) := by
  intro rest
  rw [List.cons_append, List.cons_append, split_outside_blank hand hor, ← List.cons_append, h,
    Pieces.prepend_prepend, List.singleton_append]

/-- **A quoted text has no connector**, whatever the text. -/
theorem whole_quote (text : String) : Whole (Text.quote text).toList := by
  have hinside (text rest : List Char) :
      split .inside (text.flatMap Text.quotedChar ++ '\'' :: rest) =
        (split .outside rest).prepend (text.flatMap Text.quotedChar ++ ['\'']) := by
    induction text with
    | nil => exact split_inside_cons '\'' rest
    | cons c text ih =>
      rw [List.flatMap_cons, List.append_assoc, List.append_assoc]
      rcases Text.quotedChar_cases c with ⟨escape, hwritten, -⟩ | ⟨hself, hslash, hquote, -⟩
      · rw [hwritten, List.cons_append, List.singleton_append, split_inside_cons, Place.next,
          if_pos rfl, split_escaped_cons, ih, Pieces.prepend_prepend, Pieces.prepend_prepend]
        rfl
      · rw [hself, List.singleton_append, split_inside_cons, Place.next, if_neg hslash,
          if_neg hquote, ih, Pieces.prepend_prepend]
  intro rest
  rw [Text.quote, String.toList_ofList, List.cons_append, split_outside_cons (by decide),
    Place.next, if_pos rfl, List.append_assoc, List.singleton_append, hinside,
    Pieces.prepend_prepend]
  rfl

end Condition

/-! ## Reading parts -/

namespace Operand

/-- **An operand that is read back**: a text, or a variable under a name. -/
def Plain : Operand → Prop
  | reference name => Script.isIdentifier name = true
  | text _ => True
  | _ => False

/-- The operand that a text begins with, and what follows it. -/
def read? : List Char → Option (Operand × List Char)
  | '\'' :: rest =>
    (Text.readQuoted ('\'' :: rest)).map fun found => (text (String.ofList found.1), found.2)
  | cs =>
    let name := String.ofList (cs.takeWhile Script.continuesIdentifier)
    if Script.isIdentifier name then
      some (reference name, cs.dropWhile Script.continuesIdentifier)
    else none

/-- **An operand is read back**, where its name is at its end. -/
theorem read?_render {operand : Operand} (h : operand.Plain) (rest : List Char)
    (hrest : ∀ c others, rest = c :: others → Script.continuesIdentifier c = false) :
    read? (operand.render.toList ++ rest) = some (operand, rest) := by
  cases operand with
  | text value =>
    have hquoted := Text.readQuoted_quote value rest
    rw [Text.quote, String.toList_ofList, List.cons_append] at hquoted
    rw [render, Text.quote, String.toList_ofList, List.cons_append, read?, hquoted,
      Option.map_some, String.ofList_toList]
  | reference name =>
    have hname : ∀ c ∈ name.toList, Script.continuesIdentifier c = true :=
      fun c hc => Script.continuesIdentifier_of_mem h hc
    have hnone : rest.takeWhile Script.continuesIdentifier = [] ∧
        rest.dropWhile Script.continuesIdentifier = rest := by
      cases rest with
      | nil => exact ⟨rfl, rfl⟩
      | cons c others => simp [hrest c others rfl]
    rw [render, read?]
    · simp only [List.takeWhile_append_of_pos hname, List.dropWhile_append_of_pos hname, hnone,
        List.append_nil, String.ofList_toList]
      exact if_pos h
    · intro others hquote
      have hmem : '\'' ∈ name.toList := by
        cases hcs : name.toList with
        | nil => simp [Script.isIdentifier, hcs, Plain] at h
        | cons first others =>
          rw [hcs, List.cons_append] at hquote
          exact (List.cons.inj hquote).1 ▸ List.mem_cons_self
      exact absurd (hname _ hmem) (by decide)
  | number _ => cases h
  | raw _ => cases h

end Operand

namespace Comparison

/-- The operators that stand between two operands. -/
def infixes : List (String × ComparisonOperator) :=
  [(" == ", .equals), (" != ", .notEquals), (" > ", .greaterThan), (" >= ", .greaterOrEqual),
    (" < ", .lessThan), (" <= ", .lessOrEqual)]

/-- The operators that are called on the text of the left operand. -/
def methods : List (String × ComparisonOperator) :=
  [(").includes(", .contains), (").startsWith(", .startsWith)]

/-- An operator between two operands is a sign between blanks, which has nothing
of a literal or a connector. -/
theorem exists_sign_of_mem {text : String} {operator : ComparisonOperator}
    (h : (text, operator) ∈ infixes) :
    ∃ first others, text.toList = ' ' :: first :: (others ++ [' ']) ∧
      ∀ c ∈ first :: others, c ≠ ' ' ∧ c ≠ '\'' ∧ c ≠ '&' ∧ c ≠ '|' := by
  simp only [infixes, List.mem_cons, Prod.mk.injEq, List.not_mem_nil, or_false] at h
  rcases h with ⟨rfl, -⟩ | ⟨rfl, -⟩ | ⟨rfl, -⟩ | ⟨rfl, -⟩ | ⟨rfl, -⟩ | ⟨rfl, -⟩
  · exact ⟨'=', ['='], rfl, by simp⟩
  · exact ⟨'!', ['='], rfl, by simp⟩
  · exact ⟨'>', [], rfl, by simp⟩
  · exact ⟨'>', ['='], rfl, by simp⟩
  · exact ⟨'<', [], rfl, by simp⟩
  · exact ⟨'<', ['='], rfl, by simp⟩

/-- The operator that a text begins with, and what follows it. -/
def readOperator? (table : List (String × ComparisonOperator)) (cs : List Char) :
    Option (ComparisonOperator × List Char) :=
  table.findSome? fun entry => (dropFront? entry.1.toList cs).map fun rest => (entry.2, rest)

/-- Two operands with an operator of a table between them, and `closing` behind
them. -/
def readBinary? (table : List (String × ComparisonOperator)) (closing cs : List Char) :
    Option Comparison := do
  let (left, cs) ← Operand.read? cs
  let (operator, cs) ← readOperator? table cs
  let (right, cs) ← Operand.read? cs
  if cs = closing then some ⟨left, operator, some right⟩ else none

/-- One operand behind an operator. -/
def readUnary? (operator : ComparisonOperator) (cs : List Char) : Option Comparison := do
  let (left, cs) ← Operand.read? cs
  if cs = [] then some ⟨left, operator, none⟩ else none

/-- **The comparison that a text spells.** -/
def read? : List Char → Option Comparison
  | '!' :: '!' :: rest => readUnary? .isPresent rest
  | '!' :: rest => readUnary? .isAbsent rest
  | cs =>
    match dropFront? "String(".toList cs with
    | some rest => readBinary? methods [')'] rest
    | none => readBinary? infixes [] cs

/-- What an operator looks at: a unary one at no right operand. -/
def asked (c : Comparison) : Comparison :=
  { c with right := if c.operator.isUnary then none else c.right }

example : read? "String(a).includes(' == ')".toList =
    some ⟨.reference "a", .contains, some (.text " == ")⟩ := by decide

/-- **The ways to write a comparison**: with an operator between the operands,
with a call on the left operand, or behind exclamation marks. -/
theorem render_cases (c : Comparison)
    (h : c.operator.isUnary = false → ∃ right, c.right = some right) :
    (∃ text right, (text, c.operator) ∈ infixes ∧ c.right = some right ∧
        c.render = c.left.render ++ text ++ right.render) ∨
      (∃ text right, (text, c.operator) ∈ methods ∧ c.right = some right ∧
        c.render = "String(" ++ c.left.render ++ text ++ right.render ++ ")") ∨
      (c.operator = .isPresent ∧ c.render = "!!" ++ negated c.left) ∨
      (c.operator = .isAbsent ∧ c.render = "!" ++ negated c.left) := by
  obtain ⟨left, operator, right⟩ := c
  cases operator with
  | isPresent => exact .inr (.inr (.inl ⟨rfl, rfl⟩))
  | isAbsent => exact .inr (.inr (.inr ⟨rfl, rfl⟩))
  | contains | startsWith =>
    obtain ⟨right, rfl⟩ := h rfl
    refine .inr (.inl ⟨_, right, ?_, rfl, rfl⟩)
    simp [methods]
  | _ =>
    obtain ⟨right, rfl⟩ := h rfl
    refine .inl ⟨_, right, ?_, rfl, rfl⟩
    simp [infixes]

/-- An operator of a table is read where it stands, and its text goes on no
name. -/
theorem readOperator?_append {text : String} {operator : ComparisonOperator}
    {table : List (String × ComparisonOperator)} (htable : table = infixes ∨ table = methods)
    (h : (text, operator) ∈ table) (rest : List Char) :
    readOperator? table (text.toList ++ rest) = some (operator, rest) ∧
      ∀ c others, text.toList ++ rest = c :: others → Script.continuesIdentifier c = false := by
  rcases htable with rfl | rfl
  · simp only [infixes, List.mem_cons, Prod.mk.injEq, List.not_mem_nil, or_false] at h
    rcases h with ⟨rfl, rfl⟩ | ⟨rfl, rfl⟩ | ⟨rfl, rfl⟩ | ⟨rfl, rfl⟩ | ⟨rfl, rfl⟩ | ⟨rfl, rfl⟩ <;>
      exact ⟨rfl, by rintro c others ⟨⟩; decide⟩
  · simp only [methods, List.mem_cons, Prod.mk.injEq, List.not_mem_nil, or_false] at h
    rcases h with ⟨rfl, rfl⟩ | ⟨rfl, rfl⟩ <;> exact ⟨rfl, by rintro c others ⟨⟩; decide⟩

/-- **A comparison that its operator can be asked of**: what it looks at is
there, and is read back. -/
structure Plain (c : Comparison) : Prop where
  left : c.left.Plain
  right : c.operator.isUnary = false → ∀ right, c.right = some right → right.Plain

/-- Two operands with an operator between them are read back. -/
theorem readBinary?_render {left right : Operand} (hleft : left.Plain) (hright : right.Plain)
    {table : List (String × ComparisonOperator)} (htable : table = infixes ∨ table = methods)
    {text : String} {operator : ComparisonOperator} (h : (text, operator) ∈ table)
    (closing : List Char)
    (hclosing : ∀ c others, closing = c :: others → Script.continuesIdentifier c = false) :
    readBinary? table closing
        (left.render.toList ++ (text.toList ++ (right.render.toList ++ closing))) =
      some ⟨left, operator, some right⟩ := by
  obtain ⟨hoperator, hends⟩ := readOperator?_append htable h (right.render.toList ++ closing)
  simp [readBinary?, Operand.read?_render hleft _ hends, hoperator,
    Operand.read?_render hright _ hclosing]

/-- One operand behind an operator is read back. -/
theorem readUnary?_render {left : Operand} (h : left.Plain) (operator : ComparisonOperator) :
    readUnary? operator left.render.toList = some ⟨left, operator, none⟩ := by
  have hread := Operand.read?_render h [] nofun
  rw [List.append_nil] at hread
  simp [readUnary?, hread]

/-- No operand begins with an exclamation mark. -/
theorem ne_mark_of_operand {cs : List Char} {found : Operand × List Char}
    (h : Operand.read? cs = some found) (others : List Char) : cs ≠ '!' :: others := by
  rintro rfl
  have hnone : Operand.read? ('!' :: others) = none := rfl
  rw [hnone] at h
  cases h

/-- What begins with an operand, and goes on with no bracket, has its operator
between its operands. -/
theorem read?_of_operand {cs after : List Char} {left : Operand}
    (h : Operand.read? cs = some (left, after)) (hafter : ∀ others, after ≠ '(' :: others) :
    read? cs = readBinary? infixes [] cs := by
  unfold read?
  split
  · exact absurd rfl (ne_mark_of_operand h _)
  · exact absurd rfl (ne_mark_of_operand h _)
  · split
    · rename_i others hfront
      rw [dropFront?_eq_some_iff.mp hfront] at h
      have hstring : Operand.read? ("String(".toList ++ others) =
          some (.reference "String", '(' :: others) :=
        Operand.read?_render (show (Operand.reference "String").Plain from rfl) ('(' :: others)
          (by rintro c others ⟨⟩; decide)
      rw [hstring] at h
      cases h
      exact absurd rfl (hafter others)
    · rfl

/-- The operators of the tables take two operands. -/
theorem isUnary_of_mem {text : String} {operator : ComparisonOperator}
    (h : (text, operator) ∈ infixes ++ methods) : operator.isUnary = false := by
  have hall : ∀ entry ∈ infixes ++ methods, entry.2.isUnary = false := by decide
  exact hall _ h

/-- A text and a name stand behind exclamation marks as they are. -/
theorem negated_of_plain {operand : Operand} (h : operand.Plain) :
    negated operand = operand.render := by
  cases operand with
  | raw _ => cases h
  | _ => rfl

/-- **A comparison is read back**, but for what its operator does not look
at. -/
theorem read?_render {c : Comparison} (h : c.Plain)
    (hright : c.operator.isUnary = false → ∃ right, c.right = some right) :
    read? c.render.toList = some c.asked := by
  have hasked (right : Operand) (hbinary : c.operator.isUnary = false)
      (hsome : c.right = some right) : c.asked = ⟨c.left, c.operator, some right⟩ := by
    rw [asked, hbinary, hsome]
    rfl
  have hnegated : negated c.left = c.left.render := negated_of_plain h.left
  rcases render_cases c hright with ⟨text, right, hmem, hsome, hrender⟩ |
    ⟨text, right, hmem, hsome, hrender⟩ | ⟨hoperator, hrender⟩ | ⟨hoperator, hrender⟩
  · have hbinary := isUnary_of_mem (List.mem_append_left methods hmem)
    have hplain := h.right hbinary right hsome
    have hends := (readOperator?_append (.inl rfl) hmem right.render.toList).2
    have hfirst : ∀ others, text.toList ++ right.render.toList ≠ '(' :: others := by
      obtain ⟨_, _, htext, -⟩ := exists_sign_of_mem hmem
      simp [htext]
    rw [hrender, String.toList_append, String.toList_append, List.append_assoc,
      read?_of_operand (Operand.read?_render h.left _ hends) hfirst]
    have hread := readBinary?_render h.left hplain (.inl rfl) hmem [] nofun
    rw [List.append_nil] at hread
    rw [hread, hasked right hbinary hsome]
  · have hbinary := isUnary_of_mem (List.mem_append_right infixes hmem)
    have hplain := h.right hbinary right hsome
    have hread := readBinary?_render h.left hplain (.inr rfl) hmem [')']
      (by rintro c others ⟨⟩; decide)
    have hcall : c.render.toList = "String(".toList ++
        (c.left.render.toList ++ (text.toList ++ (right.render.toList ++ [')']))) := by
      rw [hrender]
      simp [String.toList_append]
    rw [hcall]
    exact hread.trans (congrArg some (hasked right hbinary hsome).symm)
  · have hread := readUnary?_render h.left .isPresent
    have hmarked : c.render.toList = '!' :: '!' :: c.left.render.toList := by
      rw [hrender, hnegated, String.toList_append]
      rfl
    rw [hmarked, read?, hread, asked, hoperator]
    rfl
  · have hread := readUnary?_render h.left .isAbsent
    have hmarked : c.render.toList = '!' :: c.left.render.toList := by
      rw [hrender, hnegated, String.toList_append]
      rfl
    rw [hmarked, read?, hread, asked, hoperator]
    · rfl
    · have hoperand := Operand.read?_render h.left [] nofun
      rw [List.append_nil] at hoperand
      exact ne_mark_of_operand hoperand

end Comparison

/-! ## Conditions -/

namespace Condition

/-- An operand has no connector. -/
theorem whole_operand {operand : Operand} (h : operand.Plain) : Whole operand.render.toList := by
  cases operand with
  | text value => exact whole_quote value
  | reference name =>
    refine whole_of_forall fun c hc => ?_
    have hcontinues : Script.continuesIdentifier c = true :=
      Script.continuesIdentifier_of_mem h hc
    constructor <;> rintro rfl <;> exact absurd hcontinues (by decide)
  | number _ => cases h
  | raw _ => cases h

/-- An operand begins with no sign of a connector. -/
theorem exists_operand_eq_cons {operand : Operand} (h : operand.Plain) :
    ∃ c others, operand.render.toList = c :: others ∧ c ≠ '&' ∧ c ≠ '|' := by
  cases operand with
  | text value =>
    exact ⟨'\'', _, by rw [Operand.render, Text.quote, String.toList_ofList], by decide, by decide⟩
  | reference name =>
    cases hname : name.toList with
    | nil => simp [Operand.Plain, Script.isIdentifier, hname] at h
    | cons c others =>
      have hcontinues : Script.continuesIdentifier c = true :=
        Script.continuesIdentifier_of_mem h (hname ▸ List.mem_cons_self)
      refine ⟨c, others, hname, ?_, ?_⟩ <;> rintro rfl <;> exact absurd hcontinues (by decide)
  | number _ => cases h
  | raw _ => cases h

/-- The sign of an operator between blanks, and an operand behind it. -/
theorem whole_between {text : String} {operator : ComparisonOperator}
    (hmem : (text, operator) ∈ Comparison.infixes) {right : Operand} (h : right.Plain) :
    Whole (text.toList ++ right.render.toList) := by
  obtain ⟨c, others, hright, hand, hor⟩ := exists_operand_eq_cons h
  have hblank : Whole (' ' :: right.render.toList) := by
    have hwhole := whole_operand h
    rw [hright] at hwhole ⊢
    exact hwhole.blank hand hor
  obtain ⟨first, others, htext, hsign⟩ := Comparison.exists_sign_of_mem hmem
  have hplain : Whole (first :: others) :=
    whole_of_forall fun c hc => ⟨(hsign c hc).1, (hsign c hc).2.1⟩
  obtain ⟨-, -, hand', hor'⟩ := hsign first List.mem_cons_self
  have hwhole := (hplain.append hblank).blank hand' hor'
  rw [htext]
  simpa using hwhole

/-- **A comparison has no connector.** -/
theorem whole_comparison {c : Comparison} (h : c.Plain)
    (hright : c.operator.isUnary = false → ∃ right, c.right = some right) :
    Whole c.render.toList := by
  have hleft := whole_operand h.left
  have hnegated : Comparison.negated c.left = c.left.render := Comparison.negated_of_plain h.left
  rcases Comparison.render_cases c hright with ⟨text, right, hmem, hsome, hrender⟩ |
    ⟨text, right, hmem, hsome, hrender⟩ | ⟨-, hrender⟩ | ⟨-, hrender⟩
  · have hbinary := Comparison.isUnary_of_mem (List.mem_append_left _ hmem)
    rw [hrender, String.toList_append, String.toList_append, List.append_assoc]
    exact hleft.append (whole_between hmem (h.right hbinary right hsome))
  · have hbinary := Comparison.isUnary_of_mem (List.mem_append_right _ hmem)
    have hoperand := whole_operand (h.right hbinary right hsome)
    have htext : Whole text.toList := by
      simp only [Comparison.methods, List.mem_cons, Prod.mk.injEq, List.not_mem_nil, or_false]
        at hmem
      rcases hmem with ⟨rfl, -⟩ | ⟨rfl, -⟩ <;> exact whole_of_forall (by simp)
    have hopening : Whole "String(".toList := whole_of_forall (by simp)
    have hclosing : Whole ")".toList := whole_of_forall (by simp)
    rw [hrender]
    simp only [String.toList_append]
    exact (((hopening.append hleft).append htext).append hoperand).append hclosing
  · rw [hrender, hnegated, String.toList_append]
    exact (whole_of_forall (by simp)).append hleft
  · rw [hrender, hnegated, String.toList_append]
    exact (whole_of_forall (by simp)).append hleft

/-- What follows the first comparison is cut at the connectors. -/
theorem split_renderFurther {comparisons : List Comparison}
    (h : ∀ c ∈ comparisons, Whole c.render.toList) {connectors : List Connector}
    (hlength : connectors.length = comparisons.length) :
    split .outside (renderFurther comparisons connectors).toList =
      ⟨[], connectors.zip (comparisons.map fun c => c.render.toList)⟩ := by
  induction comparisons generalizing connectors with
  | nil =>
    obtain rfl := List.eq_nil_of_length_eq_zero hlength
    rfl
  | cons c comparisons ih =>
    obtain ⟨hc, hcomparisons⟩ := List.forall_mem_cons.mp h
    cases connectors with
    | nil => cases hlength
    | cons connector connectors =>
      have hfurther := ih hcomparisons (Nat.succ.inj hlength)
      have hcut : split .outside (renderFurther (c :: comparisons) (connector :: connectors)).toList
          = (split .outside (c.render.toList ++
              (renderFurther comparisons connectors).toList)).behind connector := by
        rw [renderFurther]
        simp only [String.toList_append, List.append_assoc]
        cases connector <;> rfl
      rw [hcut, hc, hfurther, Pieces.prepend, List.append_nil]
      rfl

/-- **A condition is cut into its comparisons** at its connectors. -/
theorem split_renderCondition {c : Comparison} {comparisons : List Comparison}
    (h : ∀ other ∈ c :: comparisons, Whole other.render.toList) {connectors : List Connector}
    (hlength : connectors.length = comparisons.length) :
    split .outside (renderCondition (c :: comparisons) connectors).toList =
      ⟨c.render.toList, connectors.zip (comparisons.map fun other => other.render.toList)⟩ := by
  obtain ⟨hc, hcomparisons⟩ := List.forall_mem_cons.mp h
  rw [renderCondition, String.toList_append, hc, split_renderFurther hcomparisons hlength,
    Pieces.prepend, List.append_nil]

/-- **A condition that is read back**: cut at its connectors it gives the
connectors and as many parts as there are comparisons, and each part spells its
comparison. -/
def ReadsBack (comparisons : List Comparison) (connectors : List Connector) : Prop :=
  let pieces := split .outside (renderCondition comparisons connectors).toList
  pieces.connectors = connectors ∧ pieces.parts.length = comparisons.length ∧
    pieces.parts.mapM Comparison.read? = some (comparisons.map Comparison.asked)

/-- **Comparisons of texts and names are read back**, where no operand and no
connector is missing. -/
theorem readsBack {comparisons : List Comparison} {connectors : List Connector}
    (hplain : ∀ c ∈ comparisons, c.Plain)
    (hright : ∀ c ∈ comparisons, c.operator.isUnary = false → ∃ right, c.right = some right)
    (hlength : connectors.length + 1 = comparisons.length) :
    ReadsBack comparisons connectors := by
  cases comparisons with
  | nil => cases hlength
  | cons c comparisons =>
    have hlength : connectors.length = comparisons.length := Nat.succ.inj hlength
    have hcut := split_renderCondition
      (fun other hother => whole_comparison (hplain other hother) (hright other hother)) hlength
    have hparts : (split .outside (renderCondition (c :: comparisons) connectors).toList).parts =
        (c :: comparisons).map fun other => other.render.toList := by
      rw [hcut, Pieces.parts, List.map_snd_zip (by simp [hlength]), List.map_cons]
    refine ⟨?_, ?_, ?_⟩
    · rw [hcut, Pieces.connectors, List.map_fst_zip (by simp [hlength])]
    · rw [hparts, List.length_map]
    · rw [hparts, List.mapM_map]
      refine (Checks.mapM_eq_some_iff (P := fun _ => True) fun other hother part => ?_).mpr
        ⟨fun _ _ => trivial, rfl⟩
      rw [Function.comp_apply, Comparison.read?_render (hplain other hother) (hright other hother),
        Option.some.injEq, true_and, eq_comm]

end Condition

/-! ## Conditionals that validate -/

/-- **Comparisons that differ at most in their texts.** -/
structure Comparison.SameForm (c c' : Comparison) : Prop where
  left : c.left.SameForm c'.left
  operator : c.operator = c'.operator
  right : Option.Rel Operand.SameForm c.right c'.right

/-- Such operands are read back alike. -/
theorem Operand.SameForm.plain {operand operand' : Operand} (h : operand.SameForm operand')
    (hplain : operand.Plain) : operand'.Plain := by
  cases h with
  | text => trivial
  | same => exact hplain

theorem Comparison.SameForm.plain {c c' : Comparison} (h : c.SameForm c') (hplain : c.Plain) :
    c'.Plain := by
  refine ⟨h.left.plain hplain.left, fun hbinary right' hright' => ?_⟩
  have hsame := h.right
  rw [hright'] at hsame
  rw [← h.operator] at hbinary
  cases hright : c.right with
  | none =>
    rw [hright] at hsame
    cases hsame
  | some right =>
    rw [hright] at hsame
    cases hsame with
    | some hform => exact hform.plain (hplain.right hbinary right hright)

/-- Nor does an operand get lost. -/
theorem Comparison.SameForm.exists_right {c c' : Comparison} (h : c.SameForm c')
    (hright : c.operator.isUnary = false → ∃ right, c.right = some right)
    (hbinary : c'.operator.isUnary = false) : ∃ right, c'.right = some right := by
  obtain ⟨right, hsome⟩ := hright (h.operator ▸ hbinary)
  have hsame := h.right
  rw [hsome] at hsame
  cases hright' : c'.right with
  | none =>
    rw [hright'] at hsame
    cases hsame
  | some right' => exact ⟨right', rfl⟩

/-- Each comparison of the one list has its counterpart in the other. -/
theorem Comparison.exists_sameForm {comparisons others : List Comparison}
    (h : List.Forall₂ SameForm comparisons others) :
    ∀ c' ∈ others, ∃ c ∈ comparisons, c.SameForm c' := by
  induction h with
  | nil => nofun
  | cons hc _ ih =>
    refine List.forall_mem_cons.mpr ⟨⟨_, List.mem_cons_self, hc⟩, fun c' hc' => ?_⟩
    obtain ⟨c, hmem, hsame⟩ := ih c' hc'
    exact ⟨c, List.mem_cons_of_mem _ hmem, hsame⟩

theorem Comparison.map_operator_eq {comparisons others : List Comparison}
    (h : List.Forall₂ SameForm comparisons others) :
    comparisons.map Comparison.operator = others.map Comparison.operator := by
  induction h with
  | nil => rfl
  | cons hc _ ih => rw [List.map_cons, List.map_cons, hc.operator, ih]

/-- **What validation asks of a conditional**: one connector fewer than
comparisons, and every operand that an operator looks at. -/
theorem Builtin.exists_config_of_validate {node : Node} {view : Containment}
    (h : conditional.kind.validate node view = .ok ()) :
    ∃ config, node.config ConditionalConfig.decode = .ok config ∧
      config.connectors.length + 1 = config.comparisons.length ∧
      ∀ c ∈ config.comparisons, c.operator.isUnary = false → ∃ right, c.right = some right := by
  have hvalid : validateConditional node = .ok () := h
  rw [validateConditional, Checks.check_bind_eq_ok_iff, Checks.bind_eq_ok_iff] at hvalid
  obtain ⟨-, config, hconfig, hvalid⟩ := hvalid
  refine ⟨config, hconfig, ?_⟩
  dsimp only at hvalid
  split at hvalid
  · cases hvalid
  · rename_i hnonempty
    split at hvalid
    · cases hvalid
    · rename_i hlength
      split at hvalid
      · cases hvalid
      · rename_i hmissing
        rw [missingRight?, List.findIdx?_eq_none_iff] at hmissing
        rw [List.isEmpty_iff, ← List.length_eq_zero_iff] at hnonempty
        refine ⟨by omega, fun c hc hbinary => ?_⟩
        have hthere := hmissing c hc
        rw [hbinary] at hthere
        exact Option.isSome_iff_exists.mp (by simpa using hthere)

/-- **The condition of a conditional that validates is read back.** Its
configuration has one connector fewer than comparisons, and every operand that
an operator looks at, so nothing is filled in. Where these operands are texts
and names, the condition gives back the connectors, in order, and the
comparisons; and whatever other texts stand in place of its own, the same
connectors and as many comparisons with the same operators. -/
theorem condition_reads_back {node : Node} {view : Containment}
    (h : Builtin.conditional.kind.validate node view = .ok ()) :
    ∃ config, node.config ConditionalConfig.decode = .ok config ∧
      config.connectors.length + 1 = config.comparisons.length ∧
      (∀ c ∈ config.comparisons, c.operator.isUnary = false → ∃ right, c.right = some right) ∧
      ((∀ c ∈ config.comparisons, c.Plain) →
        Condition.ReadsBack config.comparisons config.connectors ∧
        ∀ others, List.Forall₂ Comparison.SameForm config.comparisons others →
          Condition.ReadsBack others config.connectors ∧
            others.map Comparison.operator = config.comparisons.map Comparison.operator) := by
  obtain ⟨config, hconfig, hlength, hright⟩ := Builtin.exists_config_of_validate h
  refine ⟨config, hconfig, hlength, hright, fun hplain => ?_⟩
  refine ⟨Condition.readsBack hplain hright hlength, fun others hothers => ⟨?_, ?_⟩⟩
  · refine Condition.readsBack (fun c' hc' => ?_) (fun c' hc' => ?_) ?_
    · obtain ⟨c, hc, hsame⟩ := Comparison.exists_sameForm hothers c' hc'
      exact hsame.plain (hplain c hc)
    · obtain ⟨c, hc, hsame⟩ := Comparison.exists_sameForm hothers c' hc'
      exact hsame.exists_right (hright c hc)
    · rw [hlength, hothers.length_eq]
  · exact (Comparison.map_operator_eq hothers).symm

/-- A condition with a text that looks like the rest of one. -/
def ConditionalConfig.hostile : ConditionalConfig where
  comparisons := [⟨.text "') || !a && String('", .contains, some (.reference "String")⟩,
    ⟨.reference "b", .isAbsent, none⟩]
  connectors := [.or]

/-- The comparisons of the condition with an empty text. -/
def ConditionalConfig.hostileEmptied : List Comparison :=
  [⟨.text "", .contains, some (.reference "String")⟩, ⟨.reference "b", .isAbsent, none⟩]

/-- A conditional with that condition. -/
def Node.hostile : Node where
  id := "n"
  kind := "conditional"
  scope := none
  sequence := 0
  position := .origin
  payload := ⟨"", [], .object
    [("comparisons", .array (ConditionalConfig.hostile.comparisons.map Comparison.toJson)),
      ("connectors", .array [.string Connector.or.name])]⟩

/-- The conditional validates, and its condition is read back with either
text. -/
theorem condition_reads_back_hostile :
    Builtin.conditional.kind.validate Node.hostile ⟨[]⟩ = .ok () ∧
      Condition.ReadsBack ConditionalConfig.hostile.comparisons [.or] ∧
      Condition.ReadsBack ConditionalConfig.hostileEmptied [.or] := by
  have hvalid : Builtin.conditional.kind.validate Node.hostile ⟨[]⟩ = .ok () := rfl
  have hdecoded : Node.hostile.config ConditionalConfig.decode = .ok .hostile := rfl
  obtain ⟨config, hconfig, -, -, hread⟩ := condition_reads_back hvalid
  obtain rfl : ConditionalConfig.hostile = config := Except.ok.inj (hdecoded.symm.trans hconfig)
  have hplain : ∀ c ∈ ConditionalConfig.hostile.comparisons, c.Plain := by
    intro c hc
    simp only [ConditionalConfig.hostile, List.mem_cons, List.not_mem_nil, or_false] at hc
    rcases hc with rfl | rfl
    · exact ⟨trivial, fun _ right hright => Option.some.inj hright ▸ rfl⟩
    · exact ⟨rfl, nofun⟩
  obtain ⟨hhostile, hothers⟩ := hread hplain
  have hforms : List.Forall₂ Comparison.SameForm ConditionalConfig.hostile.comparisons
      ConditionalConfig.hostileEmptied :=
    .cons ⟨.text _ _, rfl, .some (.same _)⟩ (.cons ⟨.same _, rfl, .none⟩ .nil)
  exact ⟨hvalid, hhostile, (hothers _ hforms).1⟩

end StepGraph
