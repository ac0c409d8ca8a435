import StepGraph.Proofs.Alike
import StepGraph.Proofs.Graph.Recast

/-!
# Checking recast placements

What is checked before a node is placed is found alike in a recast graph
(`Fits.check_alike`, `Fits.checkAcyclic_alike`): the checks look nodes up,
ask kinds for slots, and name the owner when they refuse. That tags stand for
what they stood for, that siblings keep their order and that the relations of
ids and kinds hold of what is named is put together in `Recast.Fits`.
-/

namespace StepGraph

variable {r : Recast} {R K : String → String → Prop} {registry registry' : Registry}
variable {nodes others : List Node} {owner : Node}

namespace Recast

/-- **What a recasting is compared by**: relations that the ids of these
nodes and all tags satisfy. -/
structure Fits (r : Recast) (R K : String → String → Prop) (registry registry' : Registry)
    (nodes : List Node) : Prop where
  ids : ∀ n ∈ nodes, R n.id (r.ids n.id)
  kinds : ∀ tag, K tag (r.kinds tag)
  /-- A tag stands for what it stood for. -/
  bound : ∀ tag, registry'.get? (r.kinds tag) = registry.get? tag
  builtins : registry.OnlyBuiltins
  /-- Siblings stand in the same order. -/
  order : r.KeepsOrder nodes

namespace Fits

theorem mono (h : r.Fits R K registry registry' nodes) (hsub : others ⊆ nodes) :
    r.Fits R K registry registry' others :=
  { h with ids := fun n hn => h.ids n (hsub hn), order := h.order.mono hsub }

/-- The tag of a built-in kind is related to itself. -/
theorem tag (h : r.Fits R K registry registry' nodes) (b : Builtin) : K b.tag b.tag := by
  have htag := h.kinds b.tag
  rwa [r.kinds_tag b] at htag

/-! ## Places -/

theorem checkOpening_alike (h : r.Fits R K registry registry' nodes) (howner : owner ∈ nodes)
    (slot : Slot) (scope : Scope) (kind : Kind) (declared : List Slot) :
    Alike (StructureError.Alike R K) Eq (Placement.checkOpening slot scope owner kind declared)
      (Placement.checkOpening slot (r.scope scope) (r.node owner) kind declared) := by
  unfold Placement.checkOpening
  simp only [scope_slot, node_id, node_kind]
  split
  · exact .error (.caseElsewhere _ _ (h.ids owner howner))
  · split
    · exact .error (.undeclaredSlot _ (h.ids owner howner) (h.kinds owner.kind))
    · split
      · exact .error (.duplicateCase _ (h.ids owner howner))
      · exact .ok rfl

theorem checkPlain_alike (h : r.Fits R K registry registry' nodes) (howner : owner ∈ nodes)
    (scope : Scope) (declared : List Slot) :
    Alike (StructureError.Alike R K) Eq (Placement.checkPlain scope owner declared)
      (Placement.checkPlain (r.scope scope) (r.node owner) declared) := by
  rw [Placement.checkPlain, Placement.checkPlain]
  simp only [scope_slot, node_id, node_kind]
  split
  · exact .error (.noCase _ (h.ids owner howner))
  · split
    · exact .error (.undeclaredSlot _ (h.ids owner howner) (h.kinds owner.kind))
    · exact .ok rfl

/-- The owner declares the same slots among the recast nodes. -/
theorem checkOwned_alike (h : r.Fits R K registry registry' nodes) (howner : owner ∈ nodes)
    (opened : Option Slot) (scope : Scope) :
    Alike (StructureError.Alike R K) Eq
      (Placement.checkOwned registry nodes opened scope owner)
      (Placement.checkOwned registry' (nodes.map r.node) opened (r.scope scope)
        (r.node owner)) := by
  rw [Placement.checkOwned, Placement.checkOwned, node_kind, h.bound]
  cases hget : registry.get? owner.kind with
  | none => exact .error (.undeclaredSlot _ (h.ids owner howner) (h.kinds owner.kind))
  | some kind =>
    obtain ⟨b, rfl⟩ := h.builtins _ _ hget
    have hslots : b.kind.declaredSlots (r.node owner) ⟨nodes.map r.node⟩ =
        b.kind.declaredSlots owner ⟨nodes⟩ :=
      declaredSlots_map h.order b owner
    dsimp only
    rw [hslots]
    cases opened with
    | none => exact h.checkPlain_alike howner scope _
    | some slot => exact h.checkOpening_alike howner slot scope _ _

/-- **A placement is checked alike** among the recast nodes. -/
theorem check_alike (h : r.Fits R K registry registry' nodes) (moving : Option String)
    (kind : String) (payload : Payload) (scope : Option Scope)
    (hscope : ∀ s, scope = some s → R s.owner (r.ids s.owner)) :
    Alike (StructureError.Alike R K) Eq
      (Placement.check registry nodes moving kind payload scope)
      (Placement.check registry' (nodes.map r.node) (moving.map r.ids) (r.kinds kind) payload
        (scope.map r.scope)) := by
  cases scope with
  | none =>
    simp only [Placement.check, Option.map_none, h.bound]
    split
    · exact .error (.caseAtTop _)
    · exact .ok rfl
  | some scope =>
    simp only [Placement.check, Option.map_some, h.bound, withoutMoving_map, scope_owner,
      find?_node]
    have hothers : r.Fits R K registry registry' (withoutMoving nodes moving) :=
      h.mono List.filter_sublist.subset
    cases hfind : (withoutMoving nodes moving).find? (·.id == scope.owner) with
    | none => exact .error (.scopeNotFound (hscope scope rfl))
    | some owner => exact hothers.checkOwned_alike (List.mem_of_find?_eq_some hfind) _ scope

end Fits

/-! ## Circles -/

/-- The chain of owners meets the recast id where it met the id. -/
theorem chainMeets_graph (g : Graph) (id : String) (steps : Nat) (owner : Option String) :
    Placement.chainMeets (r.graph g) (r.ids id) steps (owner.map r.ids) =
      Placement.chainMeets g id steps owner := by
  induction steps generalizing owner with
  | zero => cases owner <;> rfl
  | succ steps ih =>
    cases owner with
    | none => rfl
    | some owner =>
      rw [Option.map_some, Placement.chainMeets, Placement.chainMeets, ids_beq, ownerOf?_graph, ih]

/-- **A circle is found alike** in the recast graph. -/
theorem checkAcyclic_alike {g : Graph} {id : String} {scope : Option Scope}
    (hid : R id (r.ids id)) (hscope : ∀ s, scope = some s → R s.owner (r.ids s.owner)) :
    Alike (StructureError.Alike R K) Eq (Placement.checkAcyclic g id scope)
      (Placement.checkAcyclic (r.graph g) (r.ids id) (scope.map r.scope)) := by
  cases scope with
  | none => exact .ok rfl
  | some scope =>
    have hmeets := chainMeets_graph (r := r) g id (g.nodes.length + 1) (some scope.owner)
    rw [Placement.checkAcyclic, Option.map_some, Placement.checkAcyclic, graph_nodes,
      List.length_map, scope_owner]
    dsimp only [Option.map_some] at hmeets ⊢
    rw [hmeets]
    split
    · exact .error (.cyclicContainment hid (hscope scope rfl))
    · exact .ok rfl

end Recast

end StepGraph
