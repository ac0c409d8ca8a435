import StepGraph.Text.Digits
import StepGraph.Text.Hidden

/-!
# Texts shown in messages

A message shows a text it found between double quotes. A double quote, a
backslash and the common controls are written as two characters; a hidden
character is written as its code point in hexadecimal between braces; all
else is shown as it is.
-/

namespace StepGraph.Text

/-- How one character is shown. -/
def shownChar (c : Char) : List Char :=
  match c with
  | '\x00' => ['\\', '0']
  | '\t' => ['\\', 't']
  | '\r' => ['\\', 'r']
  | '\n' => ['\\', 'n']
  | '\\' => ['\\', '\\']
  | '"' => ['\\', '"']
  | other =>
    if isHidden other then
      "\\u\x7b".toList ++ ((toDigits 16 other.toNat).map digitChar ++ ['\x7d'])
    else [other]

/-- A text between double quotes, as messages show it. -/
def shown (text : String) : String :=
  String.ofList ('"' :: (text.toList.flatMap shownChar ++ ['"']))

example : shown "a\"b\x7f'" = "\"a\\\"b\\u\x7b7f\x7d'\"" := by decide +kernel

end StepGraph.Text
