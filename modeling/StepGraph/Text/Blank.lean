/-!
# Blank characters

A character is blank when it has the Unicode property `White_Space`: the
ASCII blanks and controls from tab to carriage return, and the spaces and
separators beyond ASCII. Names are trimmed of blanks at both ends.
-/

namespace StepGraph.Text

/-- The code points with the property `White_Space`, as closed ranges in
increasing order. -/
def blankRanges : List (Nat × Nat) :=
  [(0x9, 0xd), (0x20, 0x20), (0x85, 0x85), (0xa0, 0xa0), (0x1680, 0x1680),
    (0x2000, 0x200a), (0x2028, 0x2029), (0x202f, 0x202f), (0x205f, 0x205f),
    (0x3000, 0x3000)]

/-- Whether a character is blank. -/
def isBlank (c : Char) : Bool :=
  blankRanges.any fun range => range.1 ≤ c.toNat && c.toNat ≤ range.2

/-- A text without the blanks at its two ends. -/
def trim (cs : List Char) : List Char :=
  ((cs.dropWhile isBlank).reverse.dropWhile isBlank).reverse

/-- Trimming on strings. -/
def trimmed (text : String) : String :=
  String.ofList (trim text.toList)

/-- A space is blank, a letter and a zero-width space are not. -/
example : isBlank ' ' = true ∧ isBlank '\u3000' = true ∧ isBlank 'a' = false ∧
    isBlank '\u200b' = false := by decide

/-- There are twenty-five blank characters. -/
example : (blankRanges.map fun range => range.2 + 1 - range.1).sum = 25 := by decide

end StepGraph.Text
