import StepGraph.Proofs.Store.Reachable

/-!
# What removing a node takes away

A node goes away with all inside it, and nothing else is lost that does not
refer to one of them (`Graph.Pruned`). The nodes that go are found by asking
one owner after the other for what it owns. In a reachable store this ends,
because no chain of owners runs in a circle, and finds the nodes on whose
chain the node stands. What stays keeps its order: in a place whose owner
stays, the node itself is all that can go (`Graph.mem_treeIds_iff_of_kept`).
-/

namespace StepGraph

variable {registry : Registry} {store : Store} {g : Graph} {n : Node} {id : String}

namespace Graph

/-- **What removing a node does to a graph.** -/
structure Pruned (g after : Graph) (id : String) : Prop where
  /-- Nodes are left in order. -/
  nodes : after.nodes.Sublist g.nodes
  /-- They are those that are another node and have it nowhere on their
  chain. -/
  mem_nodes : ∀ n, n ∈ after.nodes ↔
    n ∈ g.nodes ∧ ∃ chain, Chain g.nodes n.scope chain ∧ ∀ a ∈ n :: chain, a.id ≠ id
  /-- Edges between nodes that are left are left. -/
  edges : after.edges = g.edges.filter fun e =>
    e.source ∈ after.nodes.map Node.id ∧ e.target ∈ after.nodes.map Node.id
  /-- Variables of producers that are left are left. -/
  vars : after.vars.entries = g.vars.entries.filter fun v =>
    v.producer ∈ after.nodes.map Node.id
  /-- They are found under their names, and nothing else is. -/
  lookup : ∀ name v, after.vars.lookup name = some v ↔ v ∈ after.vars.entries ∧ v.name = name
  assistants : after.assistants = g.assistants
  /-- The top level and the slots of owners that are left lose the node
  alone. -/
  children : ∀ place, (∀ scope, place = some scope → scope.owner ∈ after.nodes.map Node.id) →
    after.children place = (g.children place).filter (·.id ≠ id)

/-- What is left are the nodes that do not go away. -/
theorem mem_without (hd : DistinctIds g.nodes) {chain : List Node} (hn : n ∈ g.nodes)
    (hchain : Chain g.nodes n.scope chain) :
    n ∈ (g.without id).nodes ↔ ∀ a ∈ n :: chain, a.id ≠ id := by
  have hkept : n ∈ (g.without id).nodes ↔ n.id ∉ g.treeIds id := by
    simp [without, hn]
  rw [hkept, mem_treeIds_iff hd hn hchain]
  simp

/-- **In a place whose owner stays, only the node itself can go.** -/
theorem mem_treeIds_iff_of_kept (h : Rooted g.nodes) (hn : n ∈ g.nodes)
    (hkept : ∀ scope, n.scope = some scope → scope.owner ∉ g.treeIds id) :
    n.id ∈ g.treeIds id ↔ n.id = id := by
  refine ⟨fun hmem => ?_, fun heq => heq ▸ List.mem_cons_self⟩
  obtain ⟨chain, hchain⟩ := h.grounded n hn
  obtain ⟨a, ha, hid⟩ := (mem_treeIds_iff h.distinct hn hchain).mp hmem
  rcases List.mem_cons.mp ha with rfl | ha
  · exact hid
  · -- the owner would have gone with what it lies in
    exfalso
    generalize hscope : n.scope = scope at hchain
    cases hchain with
    | top => cases ha
    | @up scope owner rest hmem howner hrest =>
      refine hkept scope hscope (howner ▸ ?_)
      exact (mem_treeIds_iff h.distinct hmem hrest).mpr ⟨a, ha, hid⟩

/-- The children of a place whose owner stays. -/
theorem children_without (h : Rooted g.nodes) {place : Option Scope}
    (hkept : ∀ scope, place = some scope → scope.owner ∉ g.treeIds id) :
    (g.without id).children place = (g.children place).filter (·.id ≠ id) := by
  refine Containment.children_eq_of_sorted (h.distinct.filter _)
    ((Containment.children_sorted h.distinct).filter _) fun n => ?_
  rw [List.mem_filter, decide_eq_true_eq, Graph.children, Containment.mem_children]
  simp only [List.mem_filter, Bool.not_eq_true', List.contains_eq_mem, decide_eq_false_iff_not]
  constructor
  · rintro ⟨⟨hn, rfl⟩, hid⟩
    exact ⟨⟨hn, fun hmem => hid ((mem_treeIds_iff_of_kept h hn hkept).mp hmem)⟩, rfl⟩
  · rintro ⟨⟨hn, hleft⟩, rfl⟩
    exact ⟨⟨hn, rfl⟩, fun hid => hleft ((mem_treeIds_iff_of_kept h hn hkept).mpr hid)⟩

/-- **A consistent graph is pruned.** -/
theorem Consistent.pruned (h : g.Consistent) (id : String) : g.Pruned (g.without id) id where
  nodes := List.filter_sublist
  mem_nodes n := by
    constructor
    · intro hleft
      have hn : n ∈ g.nodes := List.mem_of_mem_filter hleft
      obtain ⟨chain, hchain⟩ := h.rooted.grounded n hn
      exact ⟨hn, chain, hchain, (mem_without h.rooted.distinct hn hchain).mp hleft⟩
    · rintro ⟨hn, chain, hchain, havoid⟩
      exact (mem_without h.rooted.distinct hn hchain).mpr havoid
  edges := edges_without h id
  vars := vars_without h id
  lookup _ _ := (h.without id).vars.lookup_eq_some_iff
  assistants := rfl
  children _ howner := children_without h.rooted fun scope hscope =>
    (mem_ids_without.mp (howner scope hscope)).2

end Graph

/-- **Removing a node takes away what is inside it, and all that refers to
it.** In every reachable store a node can be removed. Asking one owner after
the other ends, and it finds the nodes that go away with the node; the numbers
and ids still to come are as before. -/
theorem pruned_of_perform (h : Reachable registry store)
    (hid : id ∈ store.graph.nodes.map Node.id) :
    ∃ found after, Collects ⟨store.graph.nodes⟩ [id] found ∧
      store.perform (.removeNode id) = (.ok none, after) ∧
      (∀ n ∈ store.graph.nodes, n ∈ after.graph.nodes ↔ n.id ≠ id ∧ n ∉ found) ∧
      store.graph.Pruned after.graph id ∧
      after.nextSequence = store.nextSequence ∧ after.ids = store.ids ∧
        after.registry = registry := by
  obtain ⟨hstore, hregistry⟩ := h.consistent
  have hd := hstore.graph.rooted.distinct
  obtain ⟨root, hroot, rfl⟩ := List.mem_map.mp hid
  have hnode : store.graph.node? root.id = some root := hd.find?_eq_some_iff.mpr ⟨hroot, rfl⟩
  refine ⟨_, { store with graph := store.graph.without root.id },
    hstore.graph.rooted.collects_descendants hroot, ?_, fun n hn => ?_,
    hstore.graph.pruned root.id, rfl, rfl, hregistry⟩
  · rw [Store.perform, Operation.edit, Edit.run_map, Edit.run_removeNode, hnode]
    rfl
  · obtain ⟨chain, hchain⟩ := hstore.graph.rooted.grounded n hn
    rw [Graph.mem_without hd hn hchain, mem_descendants_iff hd hn hchain, List.forall_mem_cons]
    simp

/-- A group in a group, with an action in each, a variable of each of these,
and edges to one of them and past both. -/
def Document.withInnerGroup : Document where
  nodes := [⟨"a", "action", some "h", 0, .origin, .empty⟩, ⟨"g", "group", none, 3, .origin, .empty⟩,
    ⟨"b", "action", some "g", 7, .origin, .empty⟩, ⟨"h", "group", some "g", 7, .origin, .empty⟩,
    ⟨"c", "action", none, 3, .origin, .empty⟩]
  edges := [⟨"e", "g", "a", .primary⟩, ⟨"f", "c", "g", .primary⟩]
  vars := [⟨"x", "x", "a"⟩, ⟨"y", "y", "b"⟩]
  assistants := []

/-- The store of the document. -/
def Store.withInnerGroup : Store :=
  (Document.withInnerGroup.loaded Registry.builtin ⟨fun _ => 0, 0⟩).store

/-- The inner group goes with its action, an edge and a variable. -/
theorem pruned_of_perform_withInnerGroup :
    Reachable Registry.builtin Store.withInnerGroup ∧
      "h" ∈ Store.withInnerGroup.graph.nodes.map Node.id ∧
      ∃ found after, Collects ⟨Store.withInnerGroup.graph.nodes⟩ ["h"] found ∧
        Store.withInnerGroup.perform (.removeNode "h") = (.ok none, after) ∧
        (∀ n ∈ Store.withInnerGroup.graph.nodes,
          n ∈ after.graph.nodes ↔ n.id ≠ "h" ∧ n ∉ found) ∧
        Store.withInnerGroup.graph.Pruned after.graph "h" ∧
        after.nextSequence = Store.withInnerGroup.nextSequence ∧
        after.ids = Store.withInnerGroup.ids ∧ after.registry = Registry.builtin := by
  have hload : Document.withInnerGroup.load Registry.builtin ⟨fun _ => 0, 0⟩ =
      .ok (Document.withInnerGroup.loaded Registry.builtin ⟨fun _ => 0, 0⟩) := rfl
  have hreachable : Reachable Registry.builtin Store.withInnerGroup :=
    ⟨_, [], .loaded hload, rfl⟩
  have hids : Store.withInnerGroup.graph.nodes.map Node.id = ["a", "g", "b", "h", "c"] := rfl
  have hmem : "h" ∈ Store.withInnerGroup.graph.nodes.map Node.id := by
    rw [hids]
    decide
  exact ⟨hreachable, hmem, pruned_of_perform hreachable hmem⟩

end StepGraph
