import StepGraph.Graph.Error
import StepGraph.Names.Variable
import StepGraph.Text.Blank

/-!
# Templates

A text with placeholders: two opening braces, a content without a closing
brace, two closing braces. The content without the blanks at its ends is
the name that the placeholder refers to. Placeholders are taken from the
left and do not overlap; whatever begins none is literal text.

A template becomes a script's template literal, between backquotes: literal
characters with a backslash in front of those that mean something there,
and each placeholder as a substitution.
-/

namespace StepGraph.Template

/-- A piece of a template: a literal character, or the name of a
placeholder. -/
inductive Segment where
  | literal (c : Char)
  | placeholder (name : List Char)
  deriving DecidableEq, Repr

/-- The name of the placeholder that a text begins with, and what follows
the placeholder. -/
def placeholder? : List Char → Option (List Char × List Char)
  | '\x7b' :: '\x7b' :: rest =>
    match rest.dropWhile (· != '\x7d') with
    | '\x7d' :: '\x7d' :: after => some (Text.trim (rest.takeWhile (· != '\x7d')), after)
    | _ => none
  | _ => none

/-- What follows a placeholder is shorter than the text. -/
theorem length_of_placeholder? {cs name after : List Char}
    (h : placeholder? cs = some (name, after)) : after.length < cs.length := by
  unfold placeholder? at h
  split at h
  · rename_i rest
    split at h
    · rename_i tail heq
      have hle : (rest.dropWhile (· != '\x7d')).length ≤ rest.length :=
        (List.dropWhile_suffix _).length_le
      simp only [Option.some.injEq, Prod.mk.injEq] at h
      rw [heq, h.2] at hle
      simp only [List.length_cons] at hle ⊢
      omega
    · exact absurd h (by simp)
  · exact absurd h (by simp)

/-- The segments of a text, from the left. -/
def segments : List Char → List Segment
  | [] => []
  | c :: rest =>
    match _h : placeholder? (c :: rest) with
    | some (name, after) => .placeholder name :: segments after
    | none => .literal c :: segments rest
termination_by cs => cs.length
decreasing_by
  · exact length_of_placeholder? _h
  · simp

/-- The name of a placeholder segment. -/
def Segment.name? : Segment → Option String
  | literal _ => none
  | placeholder name => some (String.ofList name)

/-- The names that a text refers to, in order. -/
def placeholders (text : String) : List String :=
  (segments text.toList).filterMap Segment.name?

/-! ## Template literals -/

/-- How a literal character is written inside a template literal. -/
def escapedChar (c : Char) : List Char :=
  if c = '\\' || c = '\x60' || c = '$' then ['\\', c] else [c]

/-- How a segment is written inside a template literal. -/
def Segment.render : Segment → List Char
  | literal c => escapedChar c
  | placeholder name => '$' :: '\x7b' :: (name ++ ['\x7d'])

/-- **A text as a template literal**; refused for the first placeholder
whose name cannot be resolved. -/
def render (text : String) (vars : VariableTable) :
    Except ConfigurationError String :=
  match (placeholders text).find? fun name => !vars.isResolvable name with
  | some name => .error (.unknownVariable name)
  | none =>
    .ok (String.ofList ('\x60' :: ((segments text.toList).flatMap Segment.render ++ ['\x60'])))

end StepGraph.Template
