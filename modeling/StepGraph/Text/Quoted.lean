/-!
# Quoted script strings

A text enters a script as a string literal between single quotes. Inside,
a backslash, a single quote, a line feed and a carriage return are written
as two characters, a backslash and a letter or the character itself; every
other character stands for itself.
-/

namespace StepGraph.Text

/-- How one character is written inside a quoted script string. -/
def quotedChar (c : Char) : List Char :=
  match c with
  | '\\' => ['\\', '\\']
  | '\'' => ['\\', '\'']
  | '\n' => ['\\', 'n']
  | '\r' => ['\\', 'r']
  | other => [other]

/-- A text as a string literal between single quotes. -/
def quote (text : String) : String :=
  String.ofList ('\'' :: (text.toList.flatMap quotedChar ++ ['\'']))

example : quote "it's" = "'it\\'s'" ∧ quote "a\nb\\" = "'a\\nb\\\\'" := by decide

end StepGraph.Text
