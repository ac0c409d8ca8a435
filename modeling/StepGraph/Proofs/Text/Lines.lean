import Mathlib.Data.List.Basic

/-!
# Lines

A text is cut into lines at the line feeds. A text of whole lines is empty or
ends with a line feed, so what stands behind it begins a line (`Whole`). A text
is written in lines when each of them is closed by a line feed (`Written`), and
such a text is cut into these lines again (`linesOf_eq`).
-/

namespace StepGraph.Text

/-- The lines of a text; a last one needs no line feed. -/
def splitLines : List Char → List (List Char)
  | [] => []
  | c :: rest =>
    if c = '\n' then [] :: splitLines rest
    else match splitLines rest with
      | [] => [[c]]
      | line :: lines => (c :: line) :: lines

/-- **The lines of a text.** -/
def linesOf (text : String) : List String :=
  (splitLines text.toList).map String.ofList

/-- **A text of whole lines**: it is empty or ends with a line feed. What stands
behind it begins a line. -/
def Whole (text : String) : Prop :=
  text.toList = [] ∨ text.toList.getLast? = some '\n'

instance (text : String) : Decidable (Whole text) :=
  inferInstanceAs (Decidable (_ ∨ _))

namespace Whole

variable {text more : String} {texts : List String}

/-- Told from the characters. -/
theorem ofList {cs : List Char} (h : cs.getLast? = some '\n') : Whole (String.ofList cs) := by
  right
  rwa [String.toList_ofList]

/-- What ends with a line feed is a text of whole lines, whatever is in front. -/
theorem append_line (text : String) {line : String} (h : line.toList.getLast? = some '\n') :
    Whole (text ++ line) := by
  right
  rw [String.toList_append, List.getLast?_append, h, Option.some_or]

theorem append (h : Whole text) (h' : Whole more) : Whole (text ++ more) := by
  rcases h' with hnil | hlast
  · obtain rfl : more = "" := String.ext hnil
    rwa [String.append_empty]
  · exact append_line text hlast

/-- Texts of whole lines, one after the other. -/
theorem join (h : ∀ text ∈ texts, Whole text) : Whole (String.join texts) := by
  induction texts with
  | nil => exact .inl rfl
  | cons text texts ih =>
    obtain ⟨htext, htexts⟩ := List.forall_mem_cons.mp h
    rw [String.join_cons]
    exact htext.append (ih htexts)

end Whole

/-- **A text that is written in lines**, each closed by a line feed. -/
structure Written (text : String) (lines : List String) : Prop where
  eq_join : text = String.join (lines.map (· ++ "\n"))
  oneLine : ∀ line ∈ lines, '\n' ∉ line.toList

/-- Up to a line feed a text is a line. -/
theorem splitLines_append {line : List Char} (h : '\n' ∉ line) (rest : List Char) :
    splitLines (line ++ '\n' :: rest) = line :: splitLines rest := by
  induction line with
  | nil => rw [List.nil_append, splitLines, if_pos rfl]
  | cons c line ih =>
    rw [List.mem_cons, not_or] at h
    rw [List.cons_append, splitLines, if_neg (Ne.symm h.1), ih h.2]

namespace Written

variable {text text' line : String} {lines lines' : List String}

/-- **A text written in lines has these lines.** -/
theorem linesOf_eq (h : Written text lines) : linesOf text = lines := by
  obtain ⟨rfl, hone⟩ := h
  rw [linesOf]
  induction lines with
  | nil => rfl
  | cons line lines ih =>
    obtain ⟨hline, hlines⟩ := List.forall_mem_cons.mp hone
    have hfeed : (line ++ "\n").toList = line.toList ++ ['\n'] := by rw [String.toList_append]; rfl
    rw [List.map_cons, String.join_cons, String.toList_append, hfeed, List.append_assoc,
      List.singleton_append, splitLines_append hline, List.map_cons, ih hlines,
      String.ofList_toList]

theorem nil : Written "" [] :=
  ⟨rfl, fun _ h => (by cases h)⟩

theorem single (heq : text = line ++ "\n") (h : '\n' ∉ line.toList) : Written text [line] := by
  refine ⟨by rw [heq, List.map_singleton, String.join_cons, String.join_nil, String.append_empty],
    ?_⟩
  intro other hother
  rw [List.mem_singleton.mp hother]
  exact h

theorem append (h : Written text lines) (h' : Written text' lines') :
    Written (text ++ text') (lines ++ lines') := by
  refine ⟨by rw [List.map_append, String.join_append, ← h.eq_join, ← h'.eq_join], ?_⟩
  intro line hline
  rcases List.mem_append.mp hline with hline | hline
  · exact h.oneLine line hline
  · exact h'.oneLine line hline

/-- What is written in lines is a text of whole lines. -/
theorem whole (h : Written text lines) : Whole text := by
  rw [h.eq_join]
  refine .join fun closed hclosed => ?_
  obtain ⟨line, -, rfl⟩ := List.mem_map.mp hclosed
  exact .append_line line rfl

end Written

end StepGraph.Text
