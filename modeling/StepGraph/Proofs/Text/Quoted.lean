import StepGraph.Text.Quoted

/-!
# Reading quoted strings

A string literal of a script is read up to its closing quote; a backslash
starts an escape, and a line may not end inside. Reading a quoted text gives
the text and leaves what follows (`readQuoted_quote`), and no line ends
inside a quoted text (`newline_not_mem_quote`).
-/

namespace StepGraph.Text

/-- The character that stands behind a backslash. -/
def unescaped? : Char → Option Char
  | '\\' => some '\\'
  | '\'' => some '\''
  | 'n' => some '\n'
  | 'r' => some '\r'
  | _ => none

/-- The text of a literal up to its closing quote, and what follows;
`escaped` says that a backslash stands before. -/
def readQuotedBody : (escaped : Bool) → List Char → Option (List Char × List Char)
  | _, [] => none
  | true, c :: rest => do
    let read ← unescaped? c
    let (text, after) ← readQuotedBody false rest
    return (read :: text, after)
  | false, c :: rest =>
    if c = '\'' then some ([], rest)
    else if c = '\\' then readQuotedBody true rest
    else if c = '\n' ∨ c = '\r' then none
    else do
      let (text, after) ← readQuotedBody false rest
      return (c :: text, after)

/-- **The text of a literal between single quotes**, and what follows. -/
def readQuoted : List Char → Option (List Char × List Char)
  | '\'' :: rest => readQuotedBody false rest
  | _ => none

/-- A character is written as an escape, or it is none of those that need
one and stands for itself. -/
theorem quotedChar_cases (c : Char) :
    (∃ escape, quotedChar c = ['\\', escape] ∧ unescaped? escape = some c ∧ escape ≠ '\n') ∨
      quotedChar c = [c] ∧ c ≠ '\\' ∧ c ≠ '\'' ∧ c ≠ '\n' ∧ c ≠ '\r' := by
  unfold quotedChar
  split
  · exact .inl ⟨'\\', rfl, rfl, by decide⟩
  · exact .inl ⟨'\'', rfl, rfl, by decide⟩
  · exact .inl ⟨'n', rfl, rfl, by decide⟩
  · exact .inl ⟨'r', rfl, rfl, by decide⟩
  · rename_i hslash hquote hfeed hreturn
    exact .inr ⟨rfl, hslash, hquote, hfeed, hreturn⟩

/-- The inside of a quoted text is read as the text. -/
theorem readQuotedBody_flatMap (text rest : List Char) :
    readQuotedBody false (text.flatMap quotedChar ++ '\'' :: rest) = some (text, rest) := by
  induction text with
  | nil => rfl
  | cons c text ih =>
    rw [List.flatMap_cons, List.append_assoc]
    rcases quotedChar_cases c with
      ⟨escape, hwritten, hread, -⟩ | ⟨hself, hslash, hquote, hfeed, hreturn⟩
    · -- the backslash is read, then the character behind it
      rw [hwritten, List.cons_append, List.singleton_append, readQuotedBody, if_neg (by decide),
        if_pos rfl, readQuotedBody, hread, ih]
      rfl
    · have hplain : ¬ (c = '\n' ∨ c = '\r') := not_or.mpr ⟨hfeed, hreturn⟩
      rw [hself, List.singleton_append, readQuotedBody, if_neg hquote, if_neg hslash,
        if_neg hplain, ih]
      rfl

/-- **A quoted text is read as the text**, and what follows is left. -/
theorem readQuoted_quote (text : String) (rest : List Char) :
    readQuoted ((quote text).toList ++ rest) = some (text.toList, rest) := by
  rw [quote, String.toList_ofList, List.cons_append, List.append_assoc, List.singleton_append]
  exact readQuotedBody_flatMap text.toList rest

/-- No line ends inside a quoted text. -/
theorem newline_not_mem_quote (text : String) : '\n' ∉ (quote text).toList := by
  rw [quote, String.toList_ofList, List.mem_cons, List.mem_append, List.mem_flatMap]
  rintro (h | ⟨c, -, hc⟩ | h)
  · exact absurd h (by decide)
  · rcases quotedChar_cases c with ⟨escape, hwritten, -, hescape⟩ | ⟨hself, -, -, hfeed, -⟩
    · rw [hwritten, List.mem_cons, List.mem_singleton] at hc
      rcases hc with hc | hc
      · exact absurd hc (by decide)
      · exact hescape hc.symm
    · rw [hself, List.mem_singleton] at hc
      exact hfeed hc.symm
  · exact absurd h (by decide)

end StepGraph.Text
