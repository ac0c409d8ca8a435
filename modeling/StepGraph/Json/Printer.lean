import StepGraph.Json.Basic
import StepGraph.Binary64.Notation

/-!
# Writing JSON

A value is written compactly, without any blank, or laid out over lines
with two spaces a level, where an empty array or object stays on its line.
Members are written in the order in which the object holds them.
-/

namespace StepGraph.Json

/-! ## Leaves -/

/-- How one character is written inside a JSON string. -/
def escapedChar (c : Char) : List Char :=
  match c with
  | '"' => ['\\', '"']
  | '\\' => ['\\', '\\']
  | '\n' => ['\\', 'n']
  | '\r' => ['\\', 'r']
  | '\t' => ['\\', 't']
  | '\x08' => ['\\', 'b']
  | '\x0c' => ['\\', 'f']
  | other =>
    if other.toNat < 0x20 then '\\' :: 'u' :: (Text.hexText 4 other.toNat).toList else [other]

/-- A text as a JSON string. -/
def quoteText (text : String) : String :=
  String.ofList ('"' :: (text.toList.flatMap escapedChar ++ ['"']))

/-- The text of a number. -/
def Number.text : Number → String
  | .integer value _ => Text.intText value
  | .real value _ => Binary64.jsonNotation.render value

/-! ## Compact text -/

/-- A value on one line without blanks. -/
def compact : Json → String
  | null => "null"
  | bool true => "true"
  | bool false => "false"
  | number value => value.text
  | string value => quoteText value
  | array items => "[" ++ ",".intercalate (compactItems items) ++ "]"
  | object members => "\x7b" ++ ",".intercalate (compactMembers members) ++ "\x7d"
where
  compactItems : List Json → List String
    | [] => []
    | item :: rest => item.compact :: compactItems rest
  compactMembers : List (String × Json) → List String
    | [] => []
    | (name, value) :: rest =>
      (quoteText name ++ ":" ++ value.compact) :: compactMembers rest

/-! ## Text over lines -/

/-- The start of a line at a level. -/
def newline (level : Nat) : String :=
  String.ofList ('\n' :: List.replicate (2 * level) ' ')

/-- Brackets around parts on lines of their own, one level further in. -/
def bracketed (opening closing : String) (level : Nat) : List String → String
  | [] => opening ++ closing
  | parts =>
    opening ++ newline (level + 1) ++ ("," ++ newline (level + 1)).intercalate parts
      ++ newline level ++ closing

/-- A value over lines; `level` is the one of the line it begins on. -/
def pretty (level : Nat) : Json → String
  | array items => bracketed "[" "]" level (prettyItems (level + 1) items)
  | object members => bracketed "\x7b" "\x7d" level (prettyMembers (level + 1) members)
  | other => other.compact
where
  prettyItems (level : Nat) : List Json → List String
    | [] => []
    | item :: rest => item.pretty level :: prettyItems level rest
  prettyMembers (level : Nat) : List (String × Json) → List String
    | [] => []
    | (name, value) :: rest =>
      (quoteText name ++ ": " ++ value.pretty level) :: prettyMembers level rest

end StepGraph.Json
