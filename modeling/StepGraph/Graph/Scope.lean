/-!
# Slots and scopes

A control node holds other nodes in slots: a body, the two branches of a
conditional, the default and the cases of a switch. A scope names the place
of a node: a slot of an owner. In a saved document a scope is one text, the
owner's id and, but for a body, a hyphen and the slot. Since ids may hold
hyphens themselves, a text may name several scopes; the one with the
longest known owner counts.
-/

namespace StepGraph

/-- A named place inside a node. -/
inductive Slot where
  | body
  | ifBranch
  | elseBranch
  | defaultBranch
  | caseBranch (value : String)
  deriving DecidableEq, Repr

namespace Slot

/-- What follows the owner's id in the saved text; nothing for a body. -/
def suffix? : Slot → Option String
  | body => none
  | ifBranch => some "if"
  | elseBranch => some "else"
  | defaultBranch => some "default"
  | caseBranch value => some ("case-" ++ value)

/-- The slot that a suffix names. -/
def ofSuffix? (suffix : List Char) : Option Slot :=
  if suffix = "if".toList then some ifBranch
  else if suffix = "else".toList then some elseBranch
  else if suffix = "default".toList then some defaultBranch
  else match suffix with
    | 'c' :: 'a' :: 's' :: 'e' :: '-' :: value => some (caseBranch (String.ofList value))
    | _ => none

/-- The slot as messages name it. -/
def text : Slot → String
  | body => "body"
  | ifBranch => "if"
  | elseBranch => "else"
  | defaultBranch => "default"
  | caseBranch value => "case '" ++ value ++ "'"

def isCase : Slot → Bool
  | caseBranch _ => true
  | _ => false

end Slot

/-- The place of a node: a slot of its owner. -/
structure Scope where
  owner : String
  slot : Slot
  deriving DecidableEq, Repr

namespace Scope

/-- The saved text of a scope. -/
def parentId (scope : Scope) : String :=
  match scope.slot.suffix? with
  | none => scope.owner
  | some suffix => scope.owner ++ "-" ++ suffix

/-- The ways to split a text at a hyphen, the longest first part first. -/
def splits : List Char → List (List Char × List Char)
  | [] => []
  | c :: rest =>
    let longer := (splits rest).map fun split => (c :: split.1, split.2)
    if c = '-' then longer ++ [([], rest)] else longer

/-- **The scope that a saved text names**: the body of a known owner, else
the slot behind the longest known owner that leaves one. -/
def parse? (isKnown : String → Bool) (text : String) : Option Scope :=
  if isKnown text then some ⟨text, .body⟩
  else (splits text.toList).findSome? fun (owner, suffix) =>
    if isKnown (String.ofList owner) then
      (Slot.ofSuffix? suffix).map (Scope.mk (String.ofList owner))
    else none

example : parse? (· == "a") "a-if" = some ⟨"a", .ifBranch⟩ ∧
    parse? (["a", "a-if"].contains ·) "a-if-else" = some ⟨"a-if", .elseBranch⟩ := by decide

end Scope

end StepGraph
