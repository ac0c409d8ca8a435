import StepGraph.Graph.Basic
import StepGraph.Proofs.Graph.Siblings
import StepGraph.Proofs.Kind.Bound
import StepGraph.Store.Placement
import Mathlib.Logic.Equiv.Basic

/-!
# Recasting graphs

A graph can be told again with other ids, other tags and other sequence
numbers (`Recast`). Ids go one to one, so whatever is looked up, compared or
filtered by id is found again in the recast graph. Numbers and ids also order
siblings: as long as the recast nodes stand in the same order
(`Recast.KeepsOrder`), children, descendants and declared slots are recast as
they are (`children_map`, `descendants_map`, `declaredSlots_map`).
-/

namespace StepGraph

/-- **A recasting**: ids go to ids one to one, tags to tags and sequence
numbers to numbers. -/
structure Recast where
  ids : Equiv.Perm String
  kinds : String → String
  sequences : Nat → Nat
  /-- The tags of the built-in kinds stay. -/
  kinds_tag : ∀ b : Builtin, kinds b.tag = b.tag

namespace Recast

variable (r : Recast)

/-- A scope under the new id of its owner. -/
@[simps] def scope (scope : Scope) : Scope where
  owner := r.ids scope.owner
  slot := scope.slot

/-- A node under its new names. -/
@[simps] def node (node : Node) : Node where
  id := r.ids node.id
  kind := r.kinds node.kind
  scope := node.scope.map r.scope
  sequence := r.sequences node.sequence
  position := node.position
  payload := node.payload

/-- An edge between the new ids of its ends. -/
@[simps] def edge (edge : Edge) : Edge where
  id := r.ids edge.id
  source := r.ids edge.source
  target := r.ids edge.target
  handle := edge.handle

/-- A variable with the new id of its producer. -/
@[simps] def entry (v : Variable) : Variable where
  name := v.name
  displayName := v.displayName
  producer := r.ids v.producer

/-- A table of variables; its index does not look at producers. -/
@[simps] def vars (table : VariableTable) : VariableTable where
  entries := table.entries.map r.entry
  index := table.index

/-- A graph told again. -/
@[simps] def graph (g : Graph) : Graph where
  nodes := g.nodes.map r.node
  edges := g.edges.map r.edge
  vars := r.vars g.vars
  assistants := g.assistants

/-! ## Looking up -/

variable {r} {nodes : List Node} {g : Graph} {id : String}

@[simp] theorem ids_beq (a b : String) : (r.ids a == r.ids b) = (a == b) :=
  r.ids.injective.beq_eq

@[simp] theorem scope_inj {s t : Scope} : r.scope s = r.scope t ↔ s = t := by
  obtain ⟨owner, slot⟩ := s
  obtain ⟨owner', slot'⟩ := t
  simp [scope]

theorem scope_injective : Function.Injective r.scope := fun _ _ h => scope_inj.mp h

@[simp] theorem map_scope_beq (s t : Option Scope) :
    (s.map r.scope == t.map r.scope) = (s == t) :=
  (Option.map_injective scope_injective).beq_eq

@[simp] theorem map_ids_beq (s t : Option String) :
    (s.map r.ids == t.map r.ids) = (s == t) :=
  (Option.map_injective r.ids.injective).beq_eq

theorem owner?_node (n : Node) : (r.node n).owner? = n.owner?.map r.ids := by
  cases h : n.scope <;> simp [Node.owner?, h]

@[simp] theorem isOwnedBy_node (n : Node) (owner : String) :
    (r.node n).isOwnedBy (r.ids owner) = n.isOwnedBy owner := by
  rw [Node.isOwnedBy, owner?_node]
  exact map_ids_beq n.owner? (some owner)

theorem touches_edge (e : Edge) (id : String) :
    (r.edge e).touches (r.ids id) = e.touches id := by
  simp [Edge.touches]

/-- **A node is found under its new id.** -/
theorem find?_node (nodes : List Node) (id : String) :
    (nodes.map r.node).find? (·.id == r.ids id) = (nodes.find? (·.id == id)).map r.node := by
  have hsame : ((·.id == r.ids id) ∘ r.node) = (·.id == id) := funext fun n => ids_beq n.id id
  rw [List.find?_map, hsame]

theorem node?_graph (g : Graph) (id : String) :
    (r.graph g).node? (r.ids id) = (g.node? id).map r.node :=
  find?_node g.nodes id

theorem edge?_graph (g : Graph) (id : String) :
    (r.graph g).edge? (r.ids id) = (g.edge? id).map r.edge := by
  have hsame : ((·.id == r.ids id) ∘ r.edge) = (·.id == id) := funext fun e => ids_beq e.id id
  rw [Graph.edge?, graph_edges, List.find?_map, hsame, Graph.edge?]

theorem ownerOf?_graph (g : Graph) (id : String) :
    (r.graph g).ownerOf? (r.ids id) = (g.ownerOf? id).map r.ids := by
  rw [Graph.ownerOf?, node?_graph, Graph.ownerOf?]
  cases g.node? id with
  | none => rfl
  | some n => exact owner?_node n

/-- The ids in use are recast with the graph. -/
theorem usedIds_graph (g : Graph) : (r.graph g).usedIds = g.usedIds.map r.ids := by
  rw [Graph.usedIds, graph_nodes, graph_edges, Graph.usedIds, List.map_append, List.map_map,
    List.map_map, List.map_map, List.map_map]
  rfl

theorem withoutMoving_map (nodes : List Node) (moving : Option String) :
    withoutMoving (nodes.map r.node) (moving.map r.ids) =
      (withoutMoving nodes moving).map r.node := by
  have hkeep : ∀ n : Node, (some (r.node n).id != moving.map r.ids) = (some n.id != moving) :=
    fun n => congrArg (!·) (map_ids_beq (some n.id) moving)
  rw [withoutMoving, List.filter_map, withoutMoving]
  exact congrArg (List.map r.node) (List.filter_congr fun n _ => hkeep n)

/-! ## Recastings that keep ids -/

section SameIds

variable (h : r.ids = Equiv.refl String)
include h

theorem map_scope_of_ids (scope : Option Scope) : scope.map r.scope = scope := by
  cases scope with
  | none => rfl
  | some scope => rw [Option.map_some, Recast.scope, h, Equiv.refl_apply]

theorem map_edge_of_ids (edges : List Edge) : edges.map r.edge = edges := by
  refine (List.map_congr_left fun e _ => ?_).trans (List.map_id _)
  rw [Recast.edge, h]
  rfl

theorem map_entry_of_ids (entries : List Variable) : entries.map r.entry = entries := by
  refine (List.map_congr_left fun v _ => ?_).trans (List.map_id _)
  rw [Recast.entry, h]
  rfl

end SameIds

/-! ## The order of siblings -/

variable (r) in
/-- **The recast nodes stand in the same order.** -/
def KeepsOrder (nodes : List Node) : Prop :=
  ∀ m ∈ nodes, ∀ n ∈ nodes, (r.node m).precedes (r.node n) = m.precedes n

namespace KeepsOrder

theorem mono (h : r.KeepsOrder nodes) {others : List Node} (hsub : others ⊆ nodes) :
    r.KeepsOrder others :=
  fun m hm n hn => h m (hsub hm) n (hsub hn)

/-- Nodes that are picked by a test that recasting does not change are
recast in their order. -/
theorem orderSiblings_filter (h : r.KeepsOrder nodes) {p q : Node → Bool}
    (hpq : ∀ n, q (r.node n) = p n) :
    orderSiblings ((nodes.map r.node).filter q) =
      (orderSiblings (nodes.filter p)).map r.node := by
  rw [List.filter_map, show q ∘ r.node = p from funext hpq,
    orderSiblings_map (h.mono List.filter_sublist.subset)]

/-- Nodes that keep id and number keep their order. -/
theorem of_same (hids : r.ids = Equiv.refl String) (hsequences : ∀ n, r.sequences n = n)
    (nodes : List Node) : r.KeepsOrder nodes := by
  intro m _ n _
  rw [Bool.eq_iff_iff, precedes_iff, precedes_iff]
  simp only [node_sequence, node_id, hids, hsequences, Equiv.refl_apply]

/-- The order of two nodes depends on their numbers and ids only. -/
theorem precedes_eq (h : r.KeepsOrder nodes) {m n m' n' : Node} (hm : m ∈ nodes) (hn : n ∈ nodes)
    (hm' : m.id = m'.id ∧ m.sequence = m'.sequence)
    (hn' : n.id = n'.id ∧ n.sequence = n'.sequence) :
    (r.node m').precedes (r.node n') = m'.precedes n' := by
  have hsame := h m hm n hn
  rw [Bool.eq_iff_iff, precedes_iff, precedes_iff] at hsame ⊢
  simpa only [node_sequence, node_id, hm'.1, hm'.2, hn'.1, hn'.2] using hsame

/-- Nodes that come from others with their numbers and ids keep the order. -/
theorem of_kept (h : r.KeepsOrder nodes) {others : List Node}
    (hkept : ∀ n' ∈ others, ∃ n ∈ nodes, n.id = n'.id ∧ n.sequence = n'.sequence) :
    r.KeepsOrder others := by
  intro m' hm' n' hn'
  obtain ⟨m, hm, hsame⟩ := hkept m' hm'
  obtain ⟨n, hn, hsame'⟩ := hkept n' hn'
  exact h.precedes_eq hm hn hsame hsame'

/-- **New numbers keep the order.** Nodes either keep number and id or take
a number that comes behind all others, one id for each number. -/
theorem of_new (h : r.KeepsOrder nodes) {next next' : Nat}
    (hlt : ∀ n ∈ nodes, n.sequence < next) (hlt' : ∀ n ∈ nodes, r.sequences n.sequence < next')
    (hnext : ∀ i, r.sequences (next + i) = next' + i) {others : List Node} (idOf : Nat → String)
    (hnew : ∀ n' ∈ others, (∃ n ∈ nodes, n.id = n'.id ∧ n.sequence = n'.sequence) ∨
      ∃ i, n'.sequence = next + i ∧ n'.id = idOf i) : r.KeepsOrder others := by
  intro m' hm' n' hn'
  rcases hnew m' hm' with ⟨m, hm, hmid, hmseq⟩ | ⟨i, hmseq, hmid⟩ <;>
    rcases hnew n' hn' with ⟨n, hn, hnid, hnseq⟩ | ⟨j, hnseq, hnid⟩
  · exact h.precedes_eq hm hn ⟨hmid, hmseq⟩ ⟨hnid, hnseq⟩
  all_goals
    rw [Bool.eq_iff_iff, precedes_iff, precedes_iff]
    simp only [node_sequence, node_id]
  · have hbefore := hlt m hm
    have hbefore' := hlt' m hm
    rw [hnseq, hnext, ← hmseq]
    omega
  · have hbefore := hlt n hn
    have hbefore' := hlt' n hn
    rw [hmseq, hnext, ← hnseq]
    omega
  · rw [hmseq, hnseq, hnext, hnext, hmid, hnid]
    by_cases hij : i = j
    · subst hij
      simp
    · omega

end KeepsOrder

/-! ## Containment -/

section Containment

variable (h : r.KeepsOrder nodes)
include h

/-- **The children of a scope** are those of the recast scope. -/
theorem children_map (scope : Option Scope) :
    (Containment.mk (nodes.map r.node)).children (scope.map r.scope) =
      ((Containment.mk nodes).children scope).map r.node :=
  h.orderSiblings_filter fun n => map_scope_beq n.scope scope

theorem slotChildren_map (owner : String) (slot : Slot) :
    (Containment.mk (nodes.map r.node)).slotChildren (r.ids owner) slot =
      ((Containment.mk nodes).slotChildren owner slot).map r.node :=
  children_map h (some ⟨owner, slot⟩)

theorem ownedBy_map (owner : String) :
    (Containment.mk (nodes.map r.node)).ownedBy (r.ids owner) =
      ((Containment.mk nodes).ownedBy owner).map r.node :=
  h.orderSiblings_filter fun n => isOwnedBy_node n owner

/-- Recasting leaves the case slots of an owner as they are. -/
theorem caseSlots_map (owner : String) :
    (Containment.mk (nodes.map r.node)).caseSlots (r.ids owner) =
      (Containment.mk nodes).caseSlots owner := by
  rw [Containment.caseSlots, ownedBy_map h, List.filterMap_map, Containment.caseSlots]
  congr 1
  funext n
  obtain ⟨_, _, scope, _, _, _⟩ := n
  cases scope with
  | none => rfl
  | some scope =>
    obtain ⟨_, slot⟩ := scope
    cases slot <;> rfl

/-- **All nodes inside a node** are those inside the recast one. -/
theorem descendantsTo_map (depth : Nat) (owner : String) :
    (Containment.mk (nodes.map r.node)).descendantsTo depth (r.ids owner) =
      ((Containment.mk nodes).descendantsTo depth owner).map r.node := by
  induction depth generalizing owner with
  | zero => rfl
  | succ depth ih =>
    simp only [Containment.descendantsTo, ownedBy_map h, List.map_append, List.map_flatMap,
      ← List.map_reverse, List.flatMap_map, node_id, ih]

theorem descendants_map (owner : String) :
    (Containment.mk (nodes.map r.node)).descendants (r.ids owner) =
      ((Containment.mk nodes).descendants owner).map r.node := by
  rw [Containment.descendants, List.length_map]
  exact descendantsTo_map h _ owner

/-- **A node declares the slots it did.** -/
theorem declaredSlots_map (b : Builtin) (n : Node) :
    b.kind.declaredSlots (r.node n) ⟨nodes.map r.node⟩ = b.kind.declaredSlots n ⟨nodes⟩ := by
  rw [b.declaredSlots_eq, b.declaredSlots_eq, node_id, caseSlots_map h]

end Containment

end Recast

end StepGraph
