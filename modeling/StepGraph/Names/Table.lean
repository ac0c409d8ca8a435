import StepGraph.Names.Error

/-!
# Tables of named entries

A name table keeps entries in the order in which they came and finds them
by name. An index sends every name to the position of its entry. What the
entries are is left open: an instance of `Named` says how an entry is
called, which names it may have, and how a name that is taken is refused.
-/

namespace StepGraph

/-- Entries with a name. `check` looks at an entry alone, `taken` is the
refusal of a name that another entry has. -/
class Named (α : Type) where
  name : α → String
  check : α → Except NamingError Unit
  taken : String → NamingError

/-- Entries in the order in which they came, and the position of each name. -/
structure NameTable (α : Type) where
  entries : List α
  index : List (String × Nat)
  deriving DecidableEq, Repr

namespace NameTable

variable {α : Type} [Named α]

def empty : NameTable α := ⟨[], []⟩

instance : Inhabited (NameTable α) := ⟨empty⟩

/-! ## Looking up -/

def contains (table : NameTable α) (name : String) : Bool :=
  (table.index.lookup name).isSome

/-- The entry of a name. -/
def lookup (table : NameTable α) (name : String) : Option α :=
  (table.index.lookup name).bind fun position => table.entries[position]?

def size (table : NameTable α) : Nat :=
  table.entries.length

def isEmpty (table : NameTable α) : Bool :=
  table.entries.isEmpty

/-! ## Changing -/

/-- The table with one more entry; the name has to be allowed and free. -/
def insert (table : NameTable α) (entry : α) : Except NamingError (NameTable α) :=
  match Named.check entry with
  | .error e => .error e
  | .ok () =>
    if table.contains (Named.name entry) then .error (Named.taken α (Named.name entry))
    else .ok {
      entries := table.entries ++ [entry]
      index := table.index ++ [(Named.name entry, table.entries.length)] }

/-- The positions of the names in a list of entries. -/
def positions (entries : List α) : List (String × Nat) :=
  entries.zipIdx.map fun (entry, position) => (Named.name entry, position)

/-- The table with only the entries that `keep` accepts. -/
def filter (keep : α → Bool) (table : NameTable α) : NameTable α :=
  let entries := table.entries.filter keep
  ⟨entries, positions entries⟩

/-- A table of the entries of a list, in its order; the first refusal
stands. -/
def ofList (entries : List α) : Except NamingError (NameTable α) :=
  entries.foldlM insert empty

end NameTable

end StepGraph
