import StepGraph.Graph.Basic
import StepGraph.Graph.Error
import StepGraph.Ids.Source
import StepGraph.Kind.Registry

/-!
# The store

The store owns a graph, the registry that its nodes are read with, the
source of new ids and the counter of sequence numbers. An edit is a computation on
the store that may be refused. What an edit has written before it is
refused stays written, so that nothing is left behind is a property of each
edit and not of the notation.
-/

namespace StepGraph

/-- **The counter of sequence numbers**, a word of 64 bits. Where arithmetic
is checked, adding to the last word stops the program; where it is not, the
word goes round to zero. `rounds` tells how often that has happened, and no
edit reads it. -/
structure Counter where
  word : UInt64
  rounds : Nat

namespace Counter

/-- The number that the counter gives out. -/
def number (c : Counter) : Nat :=
  c.word.toNat

/-- The counter after one more number. -/
def next (c : Counter) : Counter where
  word := c.word + 1
  rounds := if c.word + 1 = 0 then c.rounds + 1 else c.rounds

/-- **The counter has stayed below `2 ^ 64`**: no addition has gone round. Where
arithmetic is checked, no other counter is ever seen. -/
def Exact (c : Counter) : Prop :=
  c.rounds = 0

instance (c : Counter) : Decidable c.Exact :=
  inferInstanceAs (Decidable (c.rounds = 0))

end Counter

/-- A graph with what editing it takes. -/
structure Store where
  graph : Graph
  registry : Registry
  ids : IdSource
  nextSequence : Counter

namespace Store

/-- A store with an empty graph. -/
def empty (registry : Registry) (ids : IdSource) : Store :=
  ⟨.empty, registry, ids, ⟨0, 0⟩⟩

/-- The counter over nodes that are there: it stands at the highest word that
follows the number of one of them. The word after the last one is zero, so it
goes round when a node has the last number. -/
def sequenceAfter (nodes : List Node) : Counter where
  word := (nodes.map fun node => node.sequence.toUInt64 + 1).foldl max 0
  rounds := (nodes.map fun node => node.sequence + 1).foldl max 0 / UInt64.size

/-- A store with a given graph. -/
def ofGraph (graph : Graph) (registry : Registry) (ids : IdSource) : Store :=
  ⟨graph, registry, ids, sequenceAfter graph.nodes⟩

end Store

/-- A computation on the store that may be refused. A refusal keeps the
store as it was when it happened. -/
abbrev Edit (α : Type) := ExceptT EditError (StateM Store) α

namespace Edit

/-- The answer of an edit, and the store after it. -/
def run (edit : Edit α) (store : Store) : Except EditError α × Store :=
  Id.run (StateT.run (ExceptT.run edit) store)

/-! ## Refusing -/

/-- Go on only where a check of the structure succeeds. -/
def structural : Except StructureError α → Edit α
  | .ok value => pure value
  | .error error => throw (.structural error)

/-- Go on only where a name is accepted. -/
def naming : Except NamingError α → Edit α
  | .ok value => pure value
  | .error error => throw (.naming error)

/-- Go on only where a configuration is complete. -/
def configuration : Except ConfigurationError α → Edit α
  | .ok value => pure value
  | .error error => throw (.configuration error)

/-- What has to be there. -/
def orRefuse (error : StructureError) : Option α → Edit α
  | some value => pure value
  | none => throw (.structural error)

/-! ## Reading and writing -/

/-- The graph as it is. -/
def graph : Edit Graph := do
  return (← get).graph

/-- Put another graph in place. -/
def setGraph (graph : Graph) : Edit Unit :=
  modify fun store => { store with graph }

/-- Draw a new id. -/
def drawId (stem : String) : Edit String := do
  let store ← get
  let (id, ids) := store.ids.next stem store.graph.usedIds
  set { store with ids }
  return id

/-- Take the next sequence number. -/
def takeSequence : Edit Nat := do
  let store ← get
  set { store with nextSequence := store.nextSequence.next }
  return store.nextSequence.number

end Edit

end StepGraph
