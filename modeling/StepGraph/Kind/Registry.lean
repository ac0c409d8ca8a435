import StepGraph.Keyed
import StepGraph.Kind.Builtin

/-!
# Registries

A registry says which kind a node's tag stands for. It begins with the
built-in kinds under their own tags. An alias lets a tag stand for a
built-in kind, whatever it stood for before; an alias for anything else
changes nothing. A node whose tag stands for no kind is unbound.
-/

namespace StepGraph

/-- The kinds that tags stand for, sorted by tag. -/
structure Registry where
  entries : List (String × Kind)
  sorted : Keyed.Sorted entries

namespace Registry

/-- Put a kind under a tag, in place of the one that was there. -/
def insert (registry : Registry) (tag : String) (kind : Kind) : Registry :=
  ⟨Keyed.insert tag kind registry.entries, Keyed.sorted_insert registry.sorted⟩

/-- Register a kind under its own tag. -/
def register (registry : Registry) (kind : Kind) : Registry :=
  registry.insert kind.tag kind

/-- The built-in kinds under their own tags. -/
def builtin : Registry :=
  ⟨Keyed.ofList (Builtin.all.map fun b => (b.tag, b.kind)), Keyed.sorted_ofList _⟩

/-- Let a tag stand for a built-in kind. -/
def withAlias (registry : Registry) (tag target : String) : Registry :=
  match Builtin.ofTag? target with
  | some b => registry.insert tag b.kind
  | none => registry

/-- Aliases from the first to the last. -/
def withAliases (registry : Registry) (pairs : List (String × String)) : Registry :=
  pairs.foldl (fun registry pair => registry.withAlias pair.1 pair.2) registry

/-- The kind that a tag stands for. -/
def get? (registry : Registry) (tag : String) : Option Kind :=
  registry.entries.lookup tag

def contains (registry : Registry) (tag : String) : Bool :=
  (registry.get? tag).isSome

/-- The kind that a node is bound to. -/
def binding? (registry : Registry) (node : Node) : Option Kind :=
  registry.get? node.kind

/-- The registered tags in order. -/
def tags (registry : Registry) : List String :=
  registry.entries.map Prod.fst

end Registry

end StepGraph
