import StepGraph.Script.Frame

/-!
# Names in scripts

A variable of the graph becomes a variable of the script under its own
name. So the name is an ASCII identifier, and it is none that the frame of
the script or its language already uses. The ambient names are the ones
that the preamble offers to every step.
-/

namespace StepGraph.Script

/-- The values that the preamble makes available to every step. -/
def ambientNames : List String :=
  ["conversationId", "contactId", "contactName", "senderId", "result"]

/-- The words that a variable may not be named, apart from the capabilities
and the ambient names. -/
def reservedWords : List String :=
  ["response", "conversation", "contact", "async", "await", "break", "case", "catch",
    "class", "const", "continue", "default", "delete", "do", "else", "false", "for",
    "function", "if", "in", "instanceof", "let", "new", "null", "return", "switch",
    "this", "throw", "true", "try", "typeof", "undefined", "var", "void", "while"]

def isAmbient (name : String) : Bool :=
  ambientNames.contains name

def isReserved (name : String) : Bool :=
  reservedWords.contains name || parameters.contains name || isAmbient name

/-- A character that an identifier may begin with. -/
def startsIdentifier (c : Char) : Bool :=
  c.isAlpha || c == '_' || c == '$'

/-- A character that may follow in an identifier. -/
def continuesIdentifier (c : Char) : Bool :=
  c.isAlphanum || c == '_' || c == '$'

/-- Whether a name can stand in a script as it is. Only ASCII letters and
digits count. -/
def isIdentifier (name : String) : Bool :=
  match name.toList with
  | [] => false
  | first :: rest => startsIdentifier first && rest.all continuesIdentifier

example : isIdentifier "$a_1" = true ∧ isIdentifier "1a" = false ∧ isIdentifier "" = false ∧
    isIdentifier "é" = false := by decide

/-- An identifier has no other characters than those that may follow in one. -/
theorem continuesIdentifier_of_mem {name : String} (h : isIdentifier name = true) {c : Char}
    (hc : c ∈ name.toList) : continuesIdentifier c = true := by
  rw [isIdentifier] at h
  split at h
  · cases h
  · rename_i first others heq
    rw [Bool.and_eq_true, List.all_eq_true] at h
    rw [heq] at hc
    rcases List.mem_cons.mp hc with rfl | hc
    · have hfirst := h.1
      rw [startsIdentifier, Bool.or_assoc, Bool.or_eq_true] at hfirst
      rw [continuesIdentifier, Char.isAlphanum, Bool.or_assoc, Bool.or_eq_true, Bool.or_eq_true]
      exact hfirst.imp_left .inl
    · exact h.2 c hc

end StepGraph.Script
