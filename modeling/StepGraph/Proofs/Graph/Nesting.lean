import StepGraph.Proofs.Graph.Placing
import StepGraph.Proofs.Graph.Rooted

/-!
# Nesting

Nodes are nested when they are rooted and every node has a legal place among
the others, unless its owner is of a kind that is not registered and cannot
be asked (`Nested`). Nesting is kept by all that is done to nodes: one more
node in a legal place (`Nested.append`), fewer nodes where none loses its
owner (`Nested.filter`), a node brought to a legal place outside itself
(`Nested.rescope`), and changes that keep the places (`Nested.redraw`). The
one clash that moving could bring about, two cases in one slot, is excluded
because the second one found the slot taken.
-/

namespace StepGraph

variable {registry : Registry} {nodes : List Node} {scope : Option Scope} {chain : List Node}
variable {m n : Node}

/-- The owner of a node is of a kind that is not registered. -/
def OwnerUnbound (registry : Registry) (nodes : List Node) (n : Node) : Prop :=
  ∃ owner, Owns nodes owner n ∧ registry.get? owner.kind = none

/-- A node is in one of the places that it may have among the other nodes. -/
def LegallyPlaced (registry : Registry) (nodes : List Node) (n : Node) : Prop :=
  MayPlace registry (withoutMoving nodes (some n.id)) n.kind n.payload n.scope

/-- **Nested nodes**: different ids, chains of owners that end, and legal
places wherever the owner can be asked. -/
structure Nested (registry : Registry) (nodes : List Node) : Prop where
  distinct : DistinctIds nodes
  grounded : ∀ n ∈ nodes, Grounded nodes n.scope
  placed : ∀ n ∈ nodes, OwnerUnbound registry nodes n ∨ LegallyPlaced registry nodes n

/-- Nested nodes are rooted. -/
theorem Nested.rooted (h : Nested registry nodes) : Rooted nodes :=
  ⟨h.distinct, h.grounded⟩

/-- Rooted nodes are nested when they are where they may be. -/
theorem Rooted.nested (h : Rooted nodes)
    (hplaced : ∀ n ∈ nodes, OwnerUnbound registry nodes n ∨ LegallyPlaced registry nodes n) :
    Nested registry nodes :=
  ⟨h.distinct, h.grounded, hplaced⟩

/-! ## Places of others -/

namespace MayPlace

variable {others : List Node} {kind : String} {payload : Payload}

/-- A case is in a slot of a case. -/
theorem scope_of_case (h : MayPlace registry others kind payload scope)
    (hkind : registry.builtin? kind = some .caseNode) :
    ∃ owner value, scope = some ⟨owner, .caseBranch value⟩ := by
  cases h with
  | top hnot => exact absurd hkind hnot
  | fixed _ _ _ hnot => exact absurd hkind hnot
  | case => exact ⟨_, _, rfl⟩

/-- What comes to the slot of a case finds it free. -/
theorem free_of_caseBranch {owner value : String}
    (h : MayPlace registry others kind payload (some ⟨owner, .caseBranch value⟩)) :
    ∀ other ∈ others, other.scope ≠ some ⟨owner, .caseBranch value⟩ := by
  obtain ⟨_, -, -, _, -, ⟨hslot, -⟩ | ⟨-, -, -, hfree⟩⟩ := h.of_owner
  · cases Builtin.isCase_of_mem_fixedSlots hslot
  · exact hfree

end MayPlace

/-- **A node's place stays as good as it was** when its owner stays, with
its kind, and no other node comes into its slot where it is a case. -/
theorem placed_mono {nodes' : List Node}
    (h : OwnerUnbound registry nodes n ∨ LegallyPlaced registry nodes n)
    (howner : ∀ owner ∈ nodes, n.owner? = some owner.id →
      ∃ owner' ∈ nodes', owner'.id = owner.id ∧ owner'.kind = owner.kind)
    (hfree : ∀ owner value, n.scope = some ⟨owner, .caseBranch value⟩ →
      ∀ other' ∈ nodes', other'.id ≠ n.id → other'.scope = n.scope →
        ∃ other ∈ nodes, other.id ≠ n.id ∧ other.scope = n.scope) :
    OwnerUnbound registry nodes' n ∨ LegallyPlaced registry nodes' n := by
  rcases h with ⟨owner, ⟨hmem, hown⟩, hunbound⟩ | hplace
  · obtain ⟨owner', hmem', hid, hkind⟩ := howner owner hmem hown
    exact .inl ⟨owner', ⟨hmem', hown.trans (congrArg some hid.symm)⟩, hkind ▸ hunbound⟩
  · refine .inr (MayPlace.mono hplace ?_ ?_)
    · intro owner hmem hown
      obtain ⟨hmem, hne⟩ := mem_withoutMoving.mp hmem
      obtain ⟨owner', hmem', hid, hkind⟩ := howner owner hmem hown
      exact ⟨owner', mem_withoutMoving.mpr ⟨hmem', hid ▸ hne⟩, hid, hkind⟩
    · intro hkind other' hother' hscope
      obtain ⟨hmem', hne'⟩ := mem_withoutMoving.mp hother'
      obtain ⟨owner, value, hcase⟩ := hplace.scope_of_case hkind
      obtain ⟨other, hmem, hne, hsame⟩ :=
        hfree owner value hcase other' hmem' (fun h => hne' (congrArg some h)) hscope
      exact ⟨other, mem_withoutMoving.mpr ⟨hmem, fun h => hne (Option.some.inj h)⟩, hsame⟩

namespace Nested

/-- No nodes are nested. -/
theorem nil : Nested registry [] :=
  Rooted.nil.nested fun _ h => (by cases h)

/-- A legal place has a chain of owners. -/
theorem grounded_of_mayPlace (h : Nested registry nodes) {others : List Node} {kind : String}
    {payload : Payload} (hsub : others ⊆ nodes)
    (hplace : MayPlace registry others kind payload scope) : Grounded nodes scope := by
  refine h.rooted.grounded_of_owner fun s hs => ?_
  obtain ⟨owner, hmem, hid, -⟩ := (hs ▸ hplace).exists_owner
  exact ⟨owner, hsub hmem, hid⟩

/-! ## One more node -/

/-- **A new node in a legal place** keeps the nodes nested. -/
theorem append (h : Nested registry nodes) (hnew : n.id ∉ nodes.map Node.id)
    (hplace : MayPlace registry nodes n.kind n.payload n.scope) :
    Nested registry (nodes ++ [n]) := by
  have hsub : nodes ⊆ nodes ++ [n] := List.subset_append_left _ _
  have hne : ∀ m ∈ nodes, m.id ≠ n.id := fun m hm hid => hnew (hid ▸ List.mem_map_of_mem hm)
  refine (h.rooted.append hnew (h.grounded_of_mayPlace (List.Subset.refl _) hplace)).nested ?_
  intro m hmem
  rcases List.mem_append.mp hmem with hm | hm
  · refine placed_mono (h.placed m hm) (fun owner hown _ => ⟨owner, hsub hown, rfl, rfl⟩) ?_
    intro owner value hcase other hother hid hscope
    rcases List.mem_append.mp hother with hother | hother
    · exact ⟨other, hother, hid, hscope⟩
    · -- the new node would be in the slot of a case that it found taken
      obtain rfl := List.mem_singleton.mp hother
      rw [hscope, hcase] at hplace
      exact absurd hcase (hplace.free_of_caseBranch m hm)
  · obtain rfl := List.mem_singleton.mp hm
    have hothers : withoutMoving (nodes ++ [m]) (some m.id) = nodes := by
      rw [withoutMoving, List.filter_append, List.filter_eq_self.mpr, List.filter_eq_nil_iff.mpr,
        List.append_nil]
      · simp
      · exact fun p hp => by simpa using hne p hp
    exact .inr (by rw [LegallyPlaced, hothers]; exact hplace)

/-! ## Fewer nodes -/

/-- **Nodes that keep their owners** stay nested. -/
theorem filter (h : Nested registry nodes) {keep : Node → Bool}
    (hkeep : ∀ owner n, Owns nodes owner n → n ∈ nodes → keep n = true → keep owner = true) :
    Nested registry (nodes.filter keep) := by
  refine (h.rooted.filter hkeep).nested fun n hn => ?_
  obtain ⟨hn, hkept⟩ := List.mem_filter.mp hn
  refine placed_mono (h.placed n hn) ?_ ?_
  · intro owner hmem hown
    exact ⟨owner, List.mem_filter.mpr ⟨hmem, hkeep _ _ ⟨hmem, hown⟩ hn hkept⟩, rfl, rfl⟩
  · intro _ _ _ other hother hid hscope
    exact ⟨other, List.mem_of_mem_filter hother, hid, hscope⟩

/-! ## Changed nodes -/

/-- The place of a node is no matter of its position. -/
theorem redraw (h : Nested registry nodes) (id : String) (position : Position) :
    Nested registry (nodes.map fun n => if n.id = id then { n with position } else n) := by
  set f : Node → Node := fun n => if n.id = id then { n with position } else n with hf
  have hid (n : Node) : (f n).id = n.id := by simp only [hf]; split <;> rfl
  have hkind (n : Node) : (f n).kind = n.kind := by simp only [hf]; split <;> rfl
  have hscope (n : Node) : (f n).scope = n.scope := by simp only [hf]; split <;> rfl
  refine (h.rooted.map hid fun n _ => .inl (hscope n)).nested ?_
  intro n' hn'
  obtain ⟨n, hn, rfl⟩ := List.mem_map.mp hn'
  have hplace :
      OwnerUnbound registry (nodes.map f) n ∨ LegallyPlaced registry (nodes.map f) n := by
    refine placed_mono (h.placed n hn) ?_ ?_
    · exact fun owner hmem _ => ⟨f owner, List.mem_map_of_mem hmem, hid owner, hkind owner⟩
    · intro _ _ _ other' hother' hne hsame
      obtain ⟨other, hother, rfl⟩ := List.mem_map.mp hother'
      exact ⟨other, hother, hid other ▸ hne, hscope other ▸ hsame⟩
  simp only [hf]
  split <;> exact hplace

/-- **A node brought to a legal place outside itself** keeps the nodes
nested. -/
theorem rescope (h : Nested registry nodes) {t : Node} (ht : t ∈ nodes) {sequence : Nat}
    (hchain : Chain nodes scope chain) (havoid : ∀ a ∈ chain, a.id ≠ t.id)
    (hplace : MayPlace registry (withoutMoving nodes (some t.id)) t.kind t.payload scope) :
    Nested registry (Edit.rescope t.id scope sequence nodes) := by
  set nodes' := Edit.rescope t.id scope sequence nodes with hnodes'
  have howners : ∀ owner ∈ nodes, ∃ owner' ∈ nodes', owner'.id = owner.id ∧
      owner'.kind = owner.kind := by
    intro owner hmem
    by_cases hid : owner.id = t.id
    · exact ⟨_, mem_rescope.mpr (.inr ⟨owner, hmem, hid, rfl⟩), rfl, rfl⟩
    · exact ⟨owner, mem_rescope.mpr (.inl ⟨hmem, hid⟩), rfl, rfl⟩
  refine (h.rooted.rescope hchain havoid).nested ?_
  intro n hn'
  rcases mem_rescope.mp hn' with ⟨hn, hne⟩ | ⟨m, hm, hid, rfl⟩
  · refine placed_mono (h.placed n hn) (fun owner hmem _ => howners owner hmem) ?_
    intro owner value hcase other' hother' hneOther hsame
    rcases mem_rescope.mp hother' with ⟨hother, -⟩ | ⟨m, hm, hid, rfl⟩
    · exact ⟨other', hother, hneOther, hsame⟩
    · -- the node that moves would be in the slot of a case that it found taken
      obtain rfl : scope = n.scope := hsame
      rw [hcase] at hplace
      have hother : n ∈ withoutMoving nodes (some t.id) :=
        mem_withoutMoving.mpr ⟨hn, fun heq => hne (Option.some.inj heq)⟩
      exact absurd hcase (hplace.free_of_caseBranch n hother)
  · -- the node that moves has been checked against the others, which have not changed
    obtain rfl := h.distinct.eq hm ht hid
    refine .inr (MayPlace.mono hplace ?_ ?_)
    · intro owner hmem _
      obtain ⟨hmem, hne⟩ := mem_withoutMoving.mp hmem
      refine ⟨owner, mem_withoutMoving.mpr ⟨mem_rescope.mpr (.inl ⟨hmem, ?_⟩), hne⟩, rfl, rfl⟩
      exact fun heq => hne (congrArg some heq)
    · intro _ other' hother' hsame
      obtain ⟨hmem', hne'⟩ := mem_withoutMoving.mp hother'
      rcases mem_rescope.mp hmem' with ⟨hmem, hne⟩ | ⟨p, hp, hpid, rfl⟩
      · exact ⟨other', mem_withoutMoving.mpr ⟨hmem, hne'⟩, hsame⟩
      · exact absurd (congrArg some hpid) hne'

end Nested

/-! ## What lies around -/

/-- What lies around a node is its owner and what lies around the owner. -/
theorem inside_iff_of_owner? (hd : DistinctIds nodes) {a : Node} (hn : n ∈ nodes)
    (hown : m.owner? = some n.id) : Inside nodes a m ↔ a = n ∨ Inside nodes a n := by
  have hedge : Owns nodes n m := ⟨hn, hown⟩
  have hunique {b : Node} (hb : Owns nodes b m) : b = n :=
    hd.eq hb.1 hn (Option.some.inj (hb.2.symm.trans hown))
  constructor
  · intro hin
    cases hin with
    | single hb => exact .inl (hunique hb)
    | tail hab hb => exact .inr (hunique hb ▸ hab)
  · rintro (rfl | hin)
    · exact .single hedge
    · exact .tail hin hedge

/-- What is a node or lies inside it lies inside the owner of the node. -/
theorem inside_owner (hn : n ∈ nodes) (hown : m.owner? = some n.id) {a : Node}
    (h : a = m ∨ Inside nodes m a) : Inside nodes n a := by
  have hedge : Inside nodes n m := .single ⟨hn, hown⟩
  rcases h with rfl | hin
  · exact hedge
  · exact hedge.trans hin

/-- Nothing lies around a node at the top level. -/
theorem not_inside_of_top {a : Node} (htop : n.scope = none) : ¬ Inside nodes a n := by
  have hnone := owner?_of_top htop
  intro hin
  cases hin with
  | single hb => rw [hb.2] at hnone; cases hnone
  | tail _ hb => rw [hb.2] at hnone; cases hnone

end StepGraph
