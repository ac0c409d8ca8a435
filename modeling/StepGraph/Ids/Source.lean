import StepGraph.Ids.Stream
import StepGraph.Text.Digits

/-!
# Ids

A new id is a stem, an underscore and eight hexadecimal digits drawn from a
stream of words. A draw that is an id in use is dropped and the next word
taken. Nothing is known of the stream, so the search has an end of its own:
after `drawLimit` draws in vain the id is made longer than every id in use.
-/

namespace StepGraph

/-- A stream of words and the position of the next one. -/
structure IdSource where
  word : Nat → UInt32
  position : Nat

namespace IdSource

/-- The stream of a seed, from its beginning. -/
def seeded (seed : UInt64) : IdSource :=
  ⟨Ids.seededWord seed, 0⟩

/-- The id that a word makes. -/
def candidate (stem : String) (word : UInt32) : String :=
  stem ++ "_" ++ Text.hexText 8 word.toNat

/-- More draws than any run makes. -/
def drawLimit : Nat := UInt64.size

/-- An id longer than every id in use. -/
def longId (stem : String) (used : List String) : String :=
  stem ++ "_" ++ String.ofList (List.replicate ((used.map String.length).foldl max 0 + 1) '0')

/-- Draw until an id is free, as often as the fuel allows. -/
def search (source : IdSource) (stem : String) (used : List String) :
    Nat → Nat → String × IdSource
  | 0, position => (longId stem used, { source with position })
  | fuel + 1, position =>
    let id := candidate stem (source.word position)
    if used.contains id then search source stem used fuel (position + 1)
    else (id, { source with position := position + 1 })

/-- **A new id**: the first one drawn that is not in use, and the source
behind its draw. -/
def next (source : IdSource) (stem : String) (used : List String) : String × IdSource :=
  source.search stem used drawLimit source.position

end IdSource

end StepGraph
