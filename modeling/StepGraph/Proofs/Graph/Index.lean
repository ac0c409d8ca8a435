import StepGraph.Graph.Containment

/-!
# Containment filled in one pass

The lists of a containment view can be filled in one pass over the nodes. A
node at the top level is put behind the others there; any other is put twice,
behind the nodes of its scope and behind the nodes of its owner
(`Containment.Index.add`). At the end each list is brought in order by itself.
After every node the lists hold what the view selects from the nodes so far
(`Containment.Index.Holds`), so the index answers what the view does, for all
scopes and owners and whatever the nodes are (`Containment.Index.children_eq`,
`Containment.Index.ownedBy_eq`).
-/

namespace StepGraph

variable {nodes seen : List Node} {n : Node}

/-! ## Lists by key -/

section Keys

variable {κ : Type} [DecidableEq κ] {key other : κ}

/-- Put a node behind the others of its key. -/
def pushAt (key : κ) (node : Node) : List (κ × List Node) → List (κ × List Node)
  | [] => [(key, [node])]
  | (first, held) :: rest =>
    if first = key then (first, held ++ [node]) :: rest
    else (first, held) :: pushAt key node rest

/-- The nodes of a key. -/
def heldAt (lists : List (κ × List Node)) (key : κ) : List Node :=
  (lists.lookup key).getD []

theorem heldAt_cons {held : List Node} {lists : List (κ × List Node)} :
    heldAt ((key, held) :: lists) other = if other = key then held else heldAt lists other := by
  rw [heldAt, List.lookup_cons]
  by_cases h : other = key
  · rw [if_pos h, beq_iff_eq.mpr h]
    rfl
  · rw [if_neg h, beq_false_of_ne h]
    rfl

/-- **A node is put behind those of its key**, and all other keys keep theirs. -/
theorem heldAt_pushAt (lists : List (κ × List Node)) :
    heldAt (pushAt key n lists) other =
      heldAt lists other ++ if other = key then [n] else [] := by
  induction lists with
  | nil => rw [pushAt, heldAt_cons]; rfl
  | cons entry lists ih =>
    obtain ⟨first, held⟩ := entry
    rw [pushAt]
    by_cases hfirst : first = key
    · subst hfirst
      rw [if_pos rfl, heldAt_cons, heldAt_cons]
      by_cases hother : other = first <;> simp [hother]
    · rw [if_neg hfirst, heldAt_cons, heldAt_cons, ih]
      by_cases hother : other = first
      · subst hother
        simp [hfirst]
      · simp [hother]

/-- Lists that are all rewritten in one way are found rewritten. -/
theorem heldAt_map {f : List Node → List Node} (hf : f [] = []) (lists : List (κ × List Node)) :
    heldAt (lists.map fun entry => (entry.1, f entry.2)) key = f (heldAt lists key) := by
  induction lists with
  | nil => exact hf.symm
  | cons entry lists ih =>
    obtain ⟨first, held⟩ := entry
    rw [List.map_cons, heldAt_cons, heldAt_cons, ih, apply_ite f]

end Keys

namespace Containment

/-! ## The pass -/

/-- The nodes of the top level, of each scope and of each owner. -/
structure Index where
  top : List Node
  byScope : List (Scope × List Node)
  byOwner : List (String × List Node)

namespace Index

/-- Enter one more node. -/
def add (index : Index) (node : Node) : Index :=
  match node.scope with
  | some scope => { index with
      byScope := pushAt scope node index.byScope
      byOwner := pushAt scope.owner node index.byOwner }
  | none => { index with top := index.top ++ [node] }

/-- Each list in the order of siblings. -/
def ordered (index : Index) : Index where
  top := orderSiblings index.top
  byScope := index.byScope.map fun entry => (entry.1, orderSiblings entry.2)
  byOwner := index.byOwner.map fun entry => (entry.1, orderSiblings entry.2)

/-- **The index of nodes**: one pass that enters them, and then each list is
brought in order. -/
def ofNodes (nodes : List Node) : Index :=
  (nodes.foldl add ⟨[], [], []⟩).ordered

/-- The nodes of a scope, or of the top level. -/
def children (index : Index) : Option Scope → List Node
  | some scope => heldAt index.byScope scope
  | none => index.top

/-- The nodes of all slots of an owner. -/
def ownedBy (index : Index) (owner : String) : List Node :=
  heldAt index.byOwner owner

/-! ## What the lists hold -/

variable {index : Index}

theorem children_add (scope : Option Scope) :
    (index.add n).children scope =
      index.children scope ++ if n.scope == scope then [n] else [] := by
  rw [add]
  split
  · rename_i scope' hscope
    rw [hscope]
    cases scope with
    | none => simp [children]
    | some scope =>
      have heq : scope = scope' ↔ (some scope' == some scope) = true := by
        rw [beq_iff_eq, Option.some.injEq, eq_comm]
      rw [children, heldAt_pushAt, children]
      simp only [heq]
  · rename_i hscope
    rw [hscope]
    cases scope <;> simp [children]

theorem ownedBy_add (owner : String) :
    (index.add n).ownedBy owner =
      index.ownedBy owner ++ if n.isOwnedBy owner then [n] else [] := by
  rw [add, Node.isOwnedBy, Node.owner?]
  split
  · rename_i scope hscope
    have howner : owner = scope.owner ↔ (n.scope.map Scope.owner == some owner) = true := by
      rw [hscope, Option.map_some, beq_iff_eq, Option.some.injEq, eq_comm]
    rw [ownedBy, heldAt_pushAt, ownedBy]
    simp only [howner]
  · rename_i hscope
    simp [ownedBy, hscope]

/-- The lists hold the nodes so far, each list those that belong to it, in the
order in which they came. -/
structure Holds (index : Index) (seen : List Node) : Prop where
  children : ∀ scope, index.children scope = seen.filter (·.scope == scope)
  ownedBy : ∀ owner, index.ownedBy owner = seen.filter (·.isOwnedBy owner)

/-- **One more node keeps this.** -/
theorem Holds.add (h : index.Holds seen) : (index.add n).Holds (seen ++ [n]) := by
  constructor
  · intro scope
    rw [children_add, h.children, List.filter_append, List.filter_cons, List.filter_nil]
  · intro owner
    rw [ownedBy_add, h.ownedBy, List.filter_append, List.filter_cons, List.filter_nil]

/-- So a whole pass does. -/
theorem Holds.foldl_add (h : index.Holds seen) :
    (nodes.foldl Index.add index).Holds (seen ++ nodes) := by
  induction nodes generalizing index seen with
  | nil => rwa [List.append_nil]
  | cons node nodes ih =>
    rw [List.foldl_cons, List.append_cons]
    exact ih h.add

theorem holds_foldl (nodes : List Node) : (nodes.foldl add ⟨[], [], []⟩).Holds nodes := by
  have hnone : Holds ⟨[], [], []⟩ [] := ⟨by rintro ⟨⟩ <;> rfl, fun _ => rfl⟩
  exact hnone.foldl_add

/-- **The index has the children that the view has.** -/
theorem children_eq (nodes : List Node) (scope : Option Scope) :
    (ofNodes nodes).children scope = (Containment.mk nodes).children scope := by
  have hheld := (holds_foldl nodes).children scope
  rw [Containment.children, ← hheld]
  cases scope with
  | none => rfl
  | some scope => exact heldAt_map rfl _

/-- **And what it has of an owner is what the view has.** -/
theorem ownedBy_eq (nodes : List Node) (owner : String) :
    (ofNodes nodes).ownedBy owner = (Containment.mk nodes).ownedBy owner := by
  rw [Containment.ownedBy, ← (holds_foldl nodes).ownedBy owner]
  exact heldAt_map rfl _

end Index

end Containment

end StepGraph
