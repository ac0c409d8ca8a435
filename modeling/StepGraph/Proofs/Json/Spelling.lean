import Mathlib.Data.List.DropRight
import StepGraph.Proofs.Json.Literal

/-!
# What is written is read

A value that is written over lines spells a tree, which has the literals of
its numbers and the characters of its texts (`Json.spelt`). The reader finds
this tree again (`readTree_pretty`): strings up to their closing quote,
numbers up to what is no part of them, arrays and objects item by item. The
fuel that the reader is given is more than the text is long, and each item
takes its share of it.
-/

namespace StepGraph.Json

/-! ## Strings -/

/-- How a character of a text comes back: as itself, or as the unit of its
escape. -/
def textPart (c : Char) : TextPart :=
  if c.toNat < 0x20 ∧ c ∉ ['\n', '\r', '\t', '\x08', '\x0c'] then .unit c.toNat else .char c

/-- The parts of a text that is written and read. -/
def textParts (text : String) : List TextPart :=
  text.toList.map textPart

/-- The escape of a control character is four hexadecimal digits, of which the
first two are zeros. -/
theorem hexText_control : ∀ n < 0x20, ∃ a b c d,
    (Text.hexText 4 n).toList = [a, b, c, d] ∧ hexUnit? a b c d = some n := by
  have h : ∀ n < 0x20,
      (Text.hexText 4 n).toList =
        ['0', '0', Text.digitChar (n / 16), Text.digitChar (n % 16)] ∧
      hexUnit? '0' '0' (Text.digitChar (n / 16)) (Text.digitChar (n % 16)) = some n := by decide
  exact fun n hn => ⟨_, _, _, _, h n hn⟩

/-- **A character is read back from what is written for it.** -/
theorem readText_escapedChar (c : Char) (rest : List Char) :
    readText (escapedChar c ++ rest) = (readText rest).map fun r => (textPart c :: r.1, r.2) := by
  unfold escapedChar
  split
  case h_8 hquote hback hline hreturn htab hbackspace hfeed =>
    split
    · rename_i hcontrol
      obtain ⟨p, q, r, t, htext, hunit⟩ := hexText_control c.toNat hcontrol
      have hpart : textPart c = .unit c.toNat :=
        if_pos ⟨hcontrol, by simpa using ⟨hline, hreturn, htab, hbackspace, hfeed⟩⟩
      rw [htext, hpart]
      simp only [List.cons_append, List.nil_append]
      rw [readText, hunit]
    · rename_i hplain
      have hpart : textPart c = .char c := if_neg fun h => hplain h.1
      rw [hpart, List.singleton_append, readText.eq_def]
      split
      · rename_i h
        exact absurd (List.cons.inj h).1 hquote
      · rename_i h
        exact absurd (List.cons.inj h).1 hback
      · rename_i h
        exact absurd (List.cons.inj h).1 hback
      · rename_i h
        obtain ⟨rfl, rfl⟩ := List.cons.inj h
        rw [if_neg hplain]
      · rename_i h
        cases h
  all_goals rfl

/-- **A text is read back** up to its closing quote. -/
theorem readText_escaped (cs rest : List Char) :
    readText (cs.flatMap escapedChar ++ '"' :: rest) = some (cs.map textPart, rest) := by
  induction cs with
  | nil => rfl
  | cons c cs ih =>
    rw [List.flatMap_cons, List.append_assoc, readText_escapedChar, ih]
    rfl

/-- A unit that is no half of a pair is a character. -/
theorem characters?_unit {n : Nat} (hn : n < 0x20) (parts : List TextPart) :
    characters? (.unit n :: parts) = (characters? parts).map (Char.ofNat n :: ·) := by
  have hhigh : isHighSurrogate n = false := by
    simp only [isHighSurrogate, Bool.and_eq_false_iff, decide_eq_false_iff_not]
    omega
  have hlow : isLowSurrogate n = false := by
    simp only [isLowSurrogate, Bool.and_eq_false_iff, decide_eq_false_iff_not]
    omega
  rw [characters?.eq_def]
  split
  · rename_i h
    cases h
  · rename_i h
    cases h
  · rename_i h
    cases h
    simp [hhigh, hlow]
  · rename_i h
    cases h
    simp [hhigh, hlow]

/-- **The parts of a text make the text.** -/
theorem characters?_map_textPart (cs : List Char) : characters? (cs.map textPart) = some cs := by
  induction cs with
  | nil => rfl
  | cons c cs ih =>
    rw [List.map_cons, textPart]
    split
    · rename_i hcontrol
      rw [characters?_unit hcontrol.1, ih, Option.map_some, Char.ofNat_toNat]
    · rw [characters?, ih, Option.map_some]

@[simp] theorem textOf?_textParts (text : String) : textOf? (textParts text) = some text := by
  rw [textOf?, textParts, characters?_map_textPart, Option.map_some, String.ofList_toList]

/-! ## Trees -/

/-- **The tree that a value is written as.** -/
def spelt : Json → Tree
  | null => .null
  | bool value => .bool value
  | number value => .number value.literal
  | string value => .text (textParts value)
  | array items => .array (speltItems items)
  | object members => .object (speltMembers members)
where
  speltItems : List Json → List Tree
    | [] => []
    | item :: rest => item.spelt :: speltItems rest
  speltMembers : List (String × Json) → List (List TextPart × Tree)
    | [] => []
    | (name, value) :: rest => (textParts name, value.spelt) :: speltMembers rest

/-- To prove a statement of every value, prove it of the leaves, of an array
from its items and of an object from the values of its members. -/
@[elab_as_elim]
theorem inductionOn {motive : Json → Prop} (value : Json) (null : motive .null)
    (bool : ∀ value, motive (.bool value)) (number : ∀ value, motive (.number value))
    (string : ∀ value, motive (.string value))
    (array : ∀ items, (∀ item ∈ items, motive item) → motive (.array items))
    (object : ∀ members, (∀ member ∈ members, motive member.2) → motive (.object members)) :
    motive value :=
  match value with
  | .null => null
  | .bool value => bool value
  | .number value => number value
  | .string value => string value
  | .array items => array items fun item hitem =>
    have := List.sizeOf_lt_of_mem hitem
    inductionOn item null bool number string array object
  | .object members => object members fun member hmember =>
    have hmembers := List.sizeOf_lt_of_mem hmember
    have hmember : sizeOf member.2 < sizeOf member := by
      cases member
      simp
    inductionOn member.2 null bool number string array object
termination_by sizeOf value
decreasing_by
  · simp; omega
  · simp; omega

/-! ## Blanks and first characters -/

/-- The characters of a line feed and the blanks at the start of a line. -/
def lineStart (level : Nat) : List Char :=
  '\n' :: List.replicate (2 * level) ' '

theorem toList_newline (level : Nat) : (newline level).toList = lineStart level :=
  String.toList_ofList

/-- The start of a line is skipped. -/
theorem skipBlanks_lineStart (level : Nat) (cs : List Char) :
    skipBlanks (lineStart level ++ cs) = skipBlanks cs := by
  refine List.dropWhile_append_of_pos fun c hc => ?_
  rcases List.mem_cons.mp hc with rfl | hc
  · rfl
  · rw [List.eq_of_mem_replicate hc]
    rfl

/-- What a reader finds behind blanks it finds without them. -/
theorem readTree_congr {cs cs' : List Char} (h : skipBlanks cs = skipBlanks cs') (fuel : Nat) :
    readTree fuel cs = readTree fuel cs' := by
  cases fuel with
  | zero => rw [readTree, readTree]
  | succ fuel => rw [readTree, readTree, h]

theorem readItems_congr {cs cs' : List Char} (h : skipBlanks cs = skipBlanks cs') (fuel : Nat) :
    readItems fuel cs = readItems fuel cs' := by
  cases fuel with
  | zero => rw [readItems, readItems]
  | succ fuel => rw [readItems, readItems, readTree_congr h]

theorem readMembers_congr {cs cs' : List Char} (h : skipBlanks cs = skipBlanks cs') (fuel : Nat) :
    readMembers fuel cs = readMembers fuel cs' := by
  cases fuel with
  | zero => rw [readMembers, readMembers]
  | succ fuel => rw [readMembers, readMembers, h]

theorem skipBlanks_skipBlanks (cs : List Char) : skipBlanks (skipBlanks cs) = skipBlanks cs :=
  List.dropWhile_idempotent _ _

theorem skipBlanks_cons {c : Char} (h : isJsonBlank c = false) (cs : List Char) :
    skipBlanks (c :: cs) = c :: cs :=
  List.dropWhile_cons_of_neg (by simp [h])

/-- The characters that a number begins with. -/
def numberStarts : List Char :=
  ['-', '0', '1', '2', '3', '4', '5', '6', '7', '8', '9']

/-- A number begins with no blank and no closing bracket. -/
theorem plain_of_mem_numberStarts {c : Char} (h : c ∈ numberStarts) :
    isJsonBlank c = false ∧ c ≠ ']' := by
  have hall : numberStarts.all fun c => !isJsonBlank c && c != ']' := by decide
  simpa using List.all_eq_true.mp hall c h

/-- A well-spelt literal begins with a minus sign or a digit. -/
theorem exists_spelling_eq_cons {l : NumberLiteral} (h : l.WellSpelt) :
    ∃ c cs, l.spelling = c :: cs ∧ c ∈ numberStarts := by
  have hchar : ∀ digit < 10, Text.digitChar digit ∈ numberStarts := by decide
  obtain ⟨digit, more, hwhole⟩ := List.exists_cons_of_ne_nil h.whole_ne_nil
  have hdigit : digit < 10 := h.whole_lt digit (hwhole ▸ List.mem_cons_self)
  rw [NumberLiteral.spelling, hwhole]
  cases l.negative with
  | true => exact ⟨'-', _, rfl, by decide⟩
  | false => exact ⟨_, _, rfl, hchar digit hdigit⟩

/-! ## What is written -/

theorem toList_pretty_null (level : Nat) : (null.pretty level).toList = "null".toList := rfl

theorem toList_pretty_bool (level : Nat) (value : Bool) :
    ((bool value).pretty level).toList = (if value then "true" else "false").toList := by
  cases value <;> rfl

theorem toList_pretty_number (level : Nat) (value : Number) :
    ((number value).pretty level).toList = value.literal.spelling :=
  value.spelling_literal.symm

theorem toList_pretty_string (level : Nat) (value : String) :
    ((string value).pretty level).toList =
      '"' :: (value.toList.flatMap escapedChar ++ ['"']) :=
  String.toList_ofList

/-- The characters of parts between brackets. -/
theorem toList_bracketed {opening closing : String} {o c : Char} (hopening : opening.toList = [o])
    (hclosing : closing.toList = [c]) (level : Nat) (part : String) (rest : List String) :
    (bracketed opening closing level (part :: rest)).toList =
      o :: (lineStart (level + 1) ++
        ((',' :: lineStart (level + 1)).intercalate ((part :: rest).map String.toList) ++
          (lineStart level ++ [c]))) := by
  have hcomma : ("," ++ newline (level + 1)).toList = ',' :: lineStart (level + 1) := by
    rw [String.toList_append, toList_newline]
    rfl
  rw [bracketed]
  · simp only [String.toList_append, String.toList_intercalate, toList_newline, hcomma, hopening,
      hclosing, List.append_assoc, List.nil_append, List.cons_append]
  · exact List.cons_ne_nil _ _

/-- The characters of the items of an array, line by line. -/
def itemsText (level : Nat) (items : List Json) : List Char :=
  (',' :: lineStart level).intercalate ((pretty.prettyItems level items).map String.toList)

/-- The characters of the members of an object, line by line. -/
def membersText (level : Nat) (members : List (String × Json)) : List Char :=
  (',' :: lineStart level).intercalate ((pretty.prettyMembers level members).map String.toList)

/-- The characters of one member. -/
def memberText (level : Nat) (name : String) (value : Json) : List Char :=
  '"' :: (name.toList.flatMap escapedChar ++ '"' :: ':' :: ' ' :: (value.pretty level).toList)

theorem toList_member (level : Nat) (name : String) (value : Json) :
    (quoteText name ++ ": " ++ value.pretty level).toList = memberText level name value := by
  rw [String.toList_append, String.toList_append, quoteText, String.toList_ofList, memberText]
  simp only [List.cons_append, List.append_assoc, List.nil_append]
  rfl

theorem toList_pretty_array (level : Nat) (item : Json) (rest : List Json) :
    ((array (item :: rest)).pretty level).toList =
      '[' :: (lineStart (level + 1) ++ (itemsText (level + 1) (item :: rest) ++
        (lineStart level ++ [']']))) := by
  have hopening : "[".toList = ['['] := rfl
  have hclosing : "]".toList = [']'] := rfl
  rw [pretty, itemsText, pretty.prettyItems, toList_bracketed hopening hclosing]

theorem toList_pretty_array_nil (level : Nat) :
    ((array []).pretty level).toList = ['[', ']'] := by
  change ("[" ++ "]").toList = _
  rw [String.toList_append]
  rfl

theorem toList_pretty_object_nil (level : Nat) :
    ((object []).pretty level).toList = ['\x7b', '\x7d'] := by
  change ("\x7b" ++ "\x7d").toList = _
  rw [String.toList_append]
  rfl

theorem toList_pretty_object (level : Nat) (name : String) (value : Json)
    (rest : List (String × Json)) :
    ((object ((name, value) :: rest)).pretty level).toList =
      '\x7b' :: (lineStart (level + 1) ++ (membersText (level + 1) ((name, value) :: rest) ++
        (lineStart level ++ ['\x7d']))) := by
  have hopening : "\x7b".toList = ['\x7b'] := rfl
  have hclosing : "\x7d".toList = ['\x7d'] := rfl
  rw [pretty, membersText, pretty.prettyMembers, toList_bracketed hopening hclosing]

theorem itemsText_singleton (level : Nat) (item : Json) :
    itemsText level [item] = (item.pretty level).toList := by
  simp [itemsText, pretty.prettyItems]

theorem itemsText_cons (level : Nat) (item next : Json) (rest : List Json) :
    itemsText level (item :: next :: rest) =
      (item.pretty level).toList ++ ',' :: (lineStart level ++ itemsText level (next :: rest)) := by
  simp [itemsText, pretty.prettyItems, List.intercalate_cons_cons]

theorem membersText_singleton (level : Nat) (name : String) (value : Json) :
    membersText level [(name, value)] = memberText level name value := by
  simp [membersText, pretty.prettyMembers, toList_member, -String.toList_append]

theorem membersText_cons (level : Nat) (name : String) (value : Json) (next : String × Json)
    (rest : List (String × Json)) :
    membersText level ((name, value) :: next :: rest) =
      memberText level name value ++ ',' :: (lineStart level ++ membersText level (next :: rest)) := by
  simp [membersText, pretty.prettyMembers, List.intercalate_cons_cons, toList_member,
    -String.toList_append]

/-- No value begins with a blank or a closing bracket. -/
theorem exists_pretty_eq_cons (level : Nat) (value : Json) :
    ∃ c cs, (value.pretty level).toList = c :: cs ∧ isJsonBlank c = false ∧ c ≠ ']' := by
  cases value with
  | null => exact ⟨'n', _, toList_pretty_null level, by decide, by decide⟩
  | bool value =>
    cases value with
    | true => exact ⟨'t', _, toList_pretty_bool level true, by decide, by decide⟩
    | false => exact ⟨'f', _, toList_pretty_bool level false, by decide, by decide⟩
  | number value =>
    obtain ⟨c, cs, hspelling, hc⟩ := exists_spelling_eq_cons value.wellSpelt_literal
    exact ⟨c, cs, (toList_pretty_number level value).trans hspelling,
      plain_of_mem_numberStarts hc⟩
  | string value => exact ⟨_, _, toList_pretty_string level value, by decide, by decide⟩
  | array items =>
    cases items with
    | nil => exact ⟨_, _, toList_pretty_array_nil level, by decide, by decide⟩
    | cons item rest => exact ⟨_, _, toList_pretty_array level item rest, by decide, by decide⟩
  | object members =>
    cases members with
    | nil => exact ⟨_, _, toList_pretty_object_nil level, by decide, by decide⟩
    | cons member rest =>
      exact ⟨_, _, toList_pretty_object level member.1 member.2 rest, by decide, by decide⟩

theorem exists_itemsText_eq_cons (level : Nat) (item : Json) (rest : List Json) :
    ∃ c cs, itemsText level (item :: rest) = c :: cs ∧ isJsonBlank c = false ∧ c ≠ ']' := by
  obtain ⟨c, cs, htext, hplain⟩ := exists_pretty_eq_cons level item
  cases rest with
  | nil => exact ⟨c, cs, (itemsText_singleton level item).trans htext, hplain⟩
  | cons next rest => exact ⟨c, _, by rw [itemsText_cons, htext, List.cons_append], hplain⟩

/-- A member begins with its name. -/
theorem exists_membersText_eq_cons (level : Nat) (name : String) (value : Json)
    (rest : List (String × Json)) :
    ∃ cs, membersText level ((name, value) :: rest) = '"' :: cs := by
  cases rest with
  | nil => exact ⟨_, membersText_singleton level name value⟩
  | cons next rest => exact ⟨_, membersText_cons level name value next rest⟩

/-! ## Reading values -/

/-- A number is read where a minus sign or a digit stands. -/
theorem readTree_number {c : Char} (hc : c ∈ numberStarts) (fuel : Nat) (cs : List Char) :
    readTree (fuel + 1) (c :: cs) = readNumber (c :: cs) := by
  rw [readTree, skipBlanks_cons (plain_of_mem_numberStarts hc).1]
  simp only [numberStarts, List.mem_cons, List.not_mem_nil, or_false] at hc
  rcases hc with rfl | rfl | rfl | rfl | rfl | rfl | rfl | rfl | rfl | rfl | rfl <;> rfl

theorem endsNumber_lineStart (level : Nat) (cs : List Char) :
    EndsNumber (lineStart level ++ cs) := by
  rintro c ⟨⟩
  decide

theorem endsNumber_comma (cs : List Char) : EndsNumber (',' :: cs) := by
  rintro c ⟨⟩
  decide

/-- **A value is read where it is written**, up to what ends it. -/
def IsRead (value : Json) : Prop :=
  ∀ (level fuel : Nat) (rest : List Char), 2 * (value.pretty level).toList.length ≤ fuel →
    EndsNumber rest → readTree fuel ((value.pretty level).toList ++ rest) = some (value.spelt, rest)

/-- The reader goes on behind a comma. -/
theorem readItems_of_comma {fuel : Nat} {cs rest : List Char} {item : Tree}
    (h : readTree fuel cs = some (item, ',' :: rest)) :
    readItems (fuel + 1) cs = (readItems fuel rest).map fun r => (item :: r.1, r.2) := by
  rw [readItems, h]
  rfl

/-- The reader stops behind the closing bracket. -/
theorem readItems_of_bracket {fuel : Nat} {cs rest after : List Char} {item : Tree}
    (h : readTree fuel cs = some (item, rest)) (hrest : skipBlanks rest = ']' :: after) :
    readItems (fuel + 1) cs = some ([item], after) := by
  rw [readItems, h]
  dsimp only
  rw [hrest]
  rfl

/-- Items are read one by one, up to the closing bracket. -/
theorem readItems_itemsText {items : List Json} (h : ∀ item ∈ items, IsRead item)
    (hne : items ≠ []) (level outer : Nat) {fuel : Nat} (rest : List Char)
    (hfuel : 2 * (itemsText level items).length + 1 ≤ fuel) :
    readItems fuel (itemsText level items ++ (lineStart outer ++ ']' :: rest)) =
      some (spelt.speltItems items, rest) := by
  induction items generalizing fuel with
  | nil => exact absurd rfl hne
  | cons item more ih =>
    obtain ⟨hitem, hmore⟩ := List.forall_mem_cons.mp h
    obtain _ | fuel := fuel
    · omega
    cases more with
    | nil =>
      rw [itemsText_singleton] at hfuel ⊢
      exact readItems_of_bracket
        (hitem level fuel _ (by omega) (endsNumber_lineStart outer _))
        (skipBlanks_lineStart outer _)
    | cons next more =>
      rw [itemsText_cons] at hfuel ⊢
      simp only [List.length_append, List.length_cons] at hfuel
      rw [List.append_assoc, List.cons_append, List.append_assoc,
        readItems_of_comma (hitem level fuel _ (by omega) (endsNumber_comma _)),
        readItems_congr (skipBlanks_lineStart level _), ih hmore (List.cons_ne_nil _ _) (by omega)]
      rfl

/-- What stands behind the name of a member and its colon. -/
theorem readMembers_of_name {fuel : Nat} {name : String} {value : Json} {level : Nat}
    (hvalue : value.IsRead) (hfuel : 2 * (memberText level name value).length ≤ fuel)
    {rest : List Char} (hrest : EndsNumber rest) :
    readMembers (fuel + 1) (memberText level name value ++ rest) =
      match skipBlanks rest with
      | ',' :: more =>
        (readMembers fuel more).map fun r => ((textParts name, value.spelt) :: r.1, r.2)
      | '\x7d' :: after => some ([(textParts name, value.spelt)], after)
      | _ => none := by
  have hread : readTree fuel (' ' :: ((value.pretty level).toList ++ rest)) =
      some (value.spelt, rest) := by
    have hlength : 2 * (value.pretty level).toList.length ≤ fuel := by
      simp only [memberText, List.length_cons, List.length_append] at hfuel
      omega
    have hblank : skipBlanks (' ' :: ((value.pretty level).toList ++ rest)) =
        skipBlanks ((value.pretty level).toList ++ rest) := rfl
    rw [readTree_congr hblank]
    exact hvalue level fuel rest hlength hrest
  have hname := readText_escaped name.toList (':' :: ' ' :: ((value.pretty level).toList ++ rest))
  have hquote := skipBlanks_cons (c := '"') (by decide) (name.toList.flatMap escapedChar ++
    '"' :: ':' :: ' ' :: ((value.pretty level).toList ++ rest))
  have hcolon := skipBlanks_cons (c := ':') (by decide) (' ' :: ((value.pretty level).toList ++ rest))
  rw [memberText, List.cons_append, List.append_assoc]
  simp only [List.cons_append, readMembers, hquote, hname, hcolon, hread]
  rfl

/-- Members are read one by one, up to the closing brace. -/
theorem readMembers_membersText {members : List (String × Json)}
    (h : ∀ member ∈ members, IsRead member.2) (hne : members ≠ []) (level outer : Nat)
    {fuel : Nat} (rest : List Char) (hfuel : 2 * (membersText level members).length + 1 ≤ fuel) :
    readMembers fuel (membersText level members ++ (lineStart outer ++ '\x7d' :: rest)) =
      some (spelt.speltMembers members, rest) := by
  induction members generalizing fuel with
  | nil => exact absurd rfl hne
  | cons member more ih =>
    obtain ⟨name, value⟩ := member
    obtain ⟨hvalue, hmore⟩ := List.forall_mem_cons.mp h
    replace hvalue : value.IsRead := hvalue
    obtain _ | fuel := fuel
    · omega
    cases more with
    | nil =>
      rw [membersText_singleton] at hfuel ⊢
      rw [readMembers_of_name hvalue (by omega) (endsNumber_lineStart _ _), skipBlanks_lineStart]
      rfl
    | cons next more =>
      rw [membersText_cons] at hfuel ⊢
      simp only [List.length_append, List.length_cons] at hfuel
      have hnext : 2 * (membersText level (next :: more)).length + 1 ≤ fuel := by omega
      have hrest := ih hmore (List.cons_ne_nil _ _) hnext
      rw [← readMembers_congr (skipBlanks_lineStart level _)] at hrest
      rw [List.append_assoc, List.cons_append, List.append_assoc,
        readMembers_of_name hvalue (by omega) (endsNumber_comma _)]
      exact congrArg (Option.map fun r => ((textParts name, value.spelt) :: r.1, r.2)) hrest

/-! ### Arrays and objects -/

/-- Behind an opening bracket stand items, unless it is closed at once. -/
theorem readTree_bracket {rest more : List Char} {c : Char} (hrest : skipBlanks rest = c :: more)
    (hc : c ≠ ']') (fuel : Nat) :
    readTree (fuel + 1) ('[' :: rest) =
      (readItems fuel rest).map fun r => (.array r.1, r.2) := by
  rw [← readItems_congr (skipBlanks_skipBlanks rest), readTree, skipBlanks_cons (by decide)]
  split
  case h_5 h =>
    obtain ⟨-, rfl⟩ := List.cons.inj h
    rw [hrest]
    split
    · rename_i h
      exact absurd (List.cons.inj h).1 hc
    · rfl
  case h_7 h _ => exact (h rest rfl).elim
  all_goals
    rename_i h
    cases h

/-- Behind an opening brace stand members, where a name begins. -/
theorem readTree_brace {rest more : List Char} (hrest : skipBlanks rest = '"' :: more)
    (fuel : Nat) :
    readTree (fuel + 1) ('\x7b' :: rest) =
      (readMembers fuel rest).map fun r => (.object r.1, r.2) := by
  rw [← readMembers_congr (skipBlanks_skipBlanks rest), readTree, skipBlanks_cons (by decide)]
  split
  case h_6 h =>
    obtain ⟨-, rfl⟩ := List.cons.inj h
    rw [hrest]
    rfl
  case h_7 h => exact (h rest rfl).elim
  all_goals
    rename_i h
    cases h

/-! ### All values -/

theorem isRead_number (value : Number) : IsRead (.number value) := by
  intro level fuel rest hfuel hrest
  obtain ⟨c, cs, hspelling, hc⟩ := exists_spelling_eq_cons value.wellSpelt_literal
  rw [toList_pretty_number, hspelling] at hfuel
  obtain _ | fuel := fuel
  · cases hfuel
  rw [toList_pretty_number, spelt, ← readNumber_spelling value.wellSpelt_literal hrest, hspelling]
  exact readTree_number hc fuel _

theorem isRead_string (value : String) : IsRead (.string value) := by
  intro level fuel rest hfuel _
  rw [toList_pretty_string] at hfuel ⊢
  obtain _ | fuel := fuel
  · cases hfuel
  have hread : readText (value.toList.flatMap escapedChar ++ '"' :: rest) =
      some (textParts value, rest) := readText_escaped _ _
  rw [List.cons_append, List.append_assoc, readTree, skipBlanks_cons (by decide)]
  change (readText (value.toList.flatMap escapedChar ++ '"' :: rest)).map _ = _
  rw [hread]
  rfl

theorem isRead_array {items : List Json} (h : ∀ item ∈ items, IsRead item) :
    IsRead (.array items) := by
  intro level fuel rest hfuel _
  cases items with
  | nil =>
    rw [toList_pretty_array_nil] at hfuel ⊢
    obtain _ | fuel := fuel
    · cases hfuel
    rfl
  | cons item more =>
    obtain ⟨c, cs, hitems, hblank, hc⟩ := exists_itemsText_eq_cons (level + 1) item more
    rw [toList_pretty_array] at hfuel ⊢
    simp only [List.length_cons, List.length_append] at hfuel
    obtain _ | fuel := fuel
    · omega
    simp only [List.cons_append, List.append_assoc, List.nil_append]
    have hstart : skipBlanks (lineStart (level + 1) ++ (itemsText (level + 1) (item :: more) ++
        (lineStart level ++ ']' :: rest))) = c :: (cs ++ (lineStart level ++ ']' :: rest)) := by
      rw [skipBlanks_lineStart, hitems, List.cons_append, skipBlanks_cons hblank]
    rw [readTree_bracket hstart hc, readItems_congr (skipBlanks_lineStart _ _),
      readItems_itemsText h (List.cons_ne_nil _ _) _ _ _ (by omega)]
    rfl

theorem isRead_object {members : List (String × Json)} (h : ∀ member ∈ members, IsRead member.2) :
    IsRead (.object members) := by
  intro level fuel rest hfuel _
  cases members with
  | nil =>
    rw [toList_pretty_object_nil] at hfuel ⊢
    obtain _ | fuel := fuel
    · cases hfuel
    rfl
  | cons member more =>
    obtain ⟨name, value⟩ := member
    obtain ⟨cs, hmembers⟩ := exists_membersText_eq_cons (level + 1) name value more
    rw [toList_pretty_object] at hfuel ⊢
    simp only [List.length_cons, List.length_append] at hfuel
    obtain _ | fuel := fuel
    · omega
    simp only [List.cons_append, List.append_assoc, List.nil_append]
    have hstart : skipBlanks (lineStart (level + 1) ++ (membersText (level + 1)
        ((name, value) :: more) ++ (lineStart level ++ '\x7d' :: rest))) =
          '"' :: (cs ++ (lineStart level ++ '\x7d' :: rest)) := by
      rw [skipBlanks_lineStart, hmembers, List.cons_append, skipBlanks_cons (by decide)]
    rw [readTree_brace hstart, readMembers_congr (skipBlanks_lineStart _ _),
      readMembers_membersText h (List.cons_ne_nil _ _) _ _ _ (by omega)]
    rfl

/-- **Every value is read where it is written.** -/
theorem isRead (value : Json) : value.IsRead := by
  induction value using inductionOn with
  | null =>
    intro level fuel rest hfuel _
    rw [toList_pretty_null] at hfuel ⊢
    obtain _ | fuel := fuel
    · cases hfuel
    rfl
  | bool value =>
    intro level fuel rest hfuel _
    rw [toList_pretty_bool] at hfuel ⊢
    obtain _ | fuel := fuel
    · cases value <;> cases hfuel
    cases value <;> rfl
  | number value => exact isRead_number value
  | string value => exact isRead_string value
  | array items ih => exact isRead_array ih
  | object members ih => exact isRead_object ih

/-- **The text of a value spells the value's tree.** -/
theorem read?_pretty (value : Json) : Tree.read? (value.pretty 0) = some value.spelt := by
  have hread := value.isRead 0 (2 * (value.pretty 0).toList.length + 2) [] (by omega) nofun
  rw [List.append_nil] at hread
  rw [Tree.read?]
  simp only [hread]
  rfl

end StepGraph.Json
