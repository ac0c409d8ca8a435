import StepGraph.Proofs.Graph.Nesting
import StepGraph.Proofs.Store.Consistent

/-!
# What editing keeps

A graph is sound when it is consistent and its nodes are nested, that is,
where their kinds allow (`Graph.Sound`); a store is sound when its graph is
and no node has reached the next sequence number while the counter is exact
(`Store.Sound`). Each change of a store keeps it consistent and its nodes
nested (`Change.nested`), so each change keeps it sound (`Change.sound`).
-/

namespace StepGraph

variable {registry : Registry} {g : Graph} {store after : Store}

/-- **A sound graph.** -/
structure Graph.Sound (registry : Registry) (g : Graph) : Prop where
  /-- The ids of nodes and edges are different, all together. -/
  ids : g.usedIds.Nodup
  /-- Chains of owners end, and places are legal. -/
  nested : Nested registry g.nodes
  /-- Both ends of an edge are nodes. -/
  ends : ∀ e ∈ g.edges, e.source ∈ g.nodes.map Node.id ∧ e.target ∈ g.nodes.map Node.id
  /-- The producer of a variable is a node. -/
  producers : ∀ v ∈ g.vars.entries, v.producer ∈ g.nodes.map Node.id
  vars : g.vars.WellFormed
  assistants : g.assistants.WellFormed

/-- **A sound store**: its graph is sound, and new nodes come behind all
others while the counter stays below `2 ^ 64`. -/
structure Store.Sound (store : Store) : Prop where
  graph : store.graph.Sound store.registry
  sequences : store.nextSequence.Exact →
    ∀ n ∈ store.graph.nodes, n.sequence < store.nextSequence.number

namespace Graph

/-- A sound graph is consistent. -/
theorem Sound.consistent (h : g.Sound registry) : g.Consistent where
  ids := h.ids
  rooted := h.nested.rooted
  ends := h.ends
  producers := h.producers
  vars := h.vars
  assistants := h.assistants

/-- A consistent graph is sound when its nodes are nested. -/
theorem Consistent.sound (h : g.Consistent) (hnested : Nested registry g.nodes) :
    g.Sound registry :=
  { h with nested := hnested }

/-! ## Moving -/

/-- A node that goes to the top level, where it may be, keeps nodes nested. -/
theorem nested_toTop {nodes others : List Node} {t : Node} (h : Nested registry nodes)
    (ht : t ∈ nodes) (hplace : MayPlace registry others t.kind t.payload none) (sequence : Nat) :
    Nested registry (Edit.rescope t.id none sequence nodes) := by
  refine h.rescope ht .top (fun _ ha => (by cases ha)) ?_
  cases hplace with
  | top hkind => exact .top hkind

/-- **The nodes of a planned edge are nested.** The new place of the target
is checked before anything moves, and the node that falls back goes to the
top level, where nothing can be in its way. -/
theorem Sound.nested_plan (h : g.Sound registry) (hreg : registry.OnlyBuiltins)
    {replacing : Option String} {edge : Edge} {plan : EdgePlan} (counter : Counter)
    (hplan : EdgePlan.ofEdge registry g replacing edge = .ok plan) :
    Nested registry (plan.nodes counter g.nodes) := by
  have hd := h.nested.distinct
  obtain ⟨chain, hchain, havoid⟩ := h.consistent.exists_chain_of_plan hplan
  obtain ⟨source, kind, route, -, -, -, horphan, -, -, -, hcheck⟩ :=
    EdgePlan.ofEdge_eq_ok_iff.mp hplan
  obtain ⟨ht, htid⟩ := EdgePlan.target_mem hplan
  rw [Placement.check_eq_ok_iff hreg hd] at hcheck
  have hmoved : Nested registry (Edit.rescope plan.target.id plan.scope counter.number g.nodes) :=
    h.nested.rescope ht hchain havoid hcheck
  rw [EdgePlan.nodes]
  rcases EdgePlan.orphanOf_eq_ok_iff.mp horphan with
    ⟨hnone, -⟩ | ⟨old, node, -, hne, hnode, hfall, hsome⟩
  · rw [hnone]
    exact hmoved
  · rw [hsome]
    obtain ⟨hmem, hid⟩ := mem_of_node? hnode
    rw [Placement.check_eq_ok_iff hreg hd] at hfall
    -- it is not the target, so the first move has left it as it was
    have hstays : node ∈ Edit.rescope plan.target.id plan.scope counter.number g.nodes :=
      mem_rescope.mpr (.inl ⟨hmem, by rw [hid, htid]; exact hne⟩)
    exact nested_toTop hmoved hstays hfall counter.next.number

end Graph

namespace Store

/-- A sound store is consistent. -/
theorem Sound.consistent (h : store.Sound) : store.Consistent :=
  ⟨h.graph.consistent, h.sequences⟩

/-- A consistent store is sound when its nodes are nested. -/
theorem Consistent.sound (h : store.Consistent)
    (hnested : Nested store.registry store.graph.nodes) : store.Sound :=
  ⟨h.graph.sound hnested, h.sequences⟩

end Store

/-! ## Changes -/

namespace Change

variable {answer : Except EditError (Option String)}

/-- No change touches the registry. -/
theorem registry_eq (h : Change store answer after) : after.registry = store.registry := by
  cases h with
  | added output => cases output <;> rfl
  | _ => rfl

/-- **Every change keeps nodes nested.** -/
theorem nested (h : Change store answer after) (hreg : store.registry.OnlyBuiltins)
    (hstore : store.Sound) : Nested store.registry after.graph.nodes := by
  have hgraph := hstore.graph
  cases h with
  | refused | variableRegistered | assistantRegistered => exact hgraph.nested
  | @added kind payload scope output hcheck =>
    have hplace : MayPlace store.registry store.graph.nodes kind payload scope := by
      rwa [Placement.check_eq_ok_iff hreg hgraph.nested.distinct, withoutMoving_none] at hcheck
    have hnew : (store.newNode kind payload scope).id ∉ store.graph.nodes.map Node.id :=
      fun hmem => IdSource.next_not_mem (List.mem_append_left _ hmem)
    have hnested := hgraph.nested.append (n := store.newNode kind payload scope) hnew hplace
    cases output <;> exact hnested
  | removed =>
    exact hgraph.nested.filter fun owner n hown hn hkept =>
      Graph.keeps_owner hgraph.nested.rooted _ hown hn hkept
  | redrawn position => exact hgraph.nested.redraw _ position
  | connected _ _ hplan | reconnected _ hplan =>
    exact hgraph.nested_plan hreg store.nextSequence hplan
  | @disconnected edge target id hedge htarget hcheck =>
    rw [Placement.check_eq_ok_iff hreg hgraph.nested.distinct] at hcheck
    obtain ⟨ht, htid⟩ := Graph.mem_of_node? htarget
    exact htid ▸ Graph.nested_toTop hgraph.nested ht hcheck store.nextSequence.number

/-- **Every change keeps a store sound.** -/
theorem sound (h : Change store answer after) (hreg : store.registry.OnlyBuiltins)
    (hstore : store.Sound) : after.Sound :=
  (h.consistent hstore.consistent).sound (h.registry_eq ▸ h.nested hreg hstore)

/-- **A node after a change** has an id that was there, or the one that was
drawn for it and is the answer. -/
theorem node_id_mem (h : Change store answer after) {id : String}
    (hid : id ∈ after.graph.nodes.map Node.id) :
    id ∈ store.graph.nodes.map Node.id ∨
      id = (store.ids.next "node" store.graph.usedIds).1 ∧ answer = .ok (some id) := by
  cases h with
  | refused | variableRegistered | assistantRegistered => exact .inl hid
  | @added kind payload scope output =>
    have hnodes : ((store.withNode kind payload scope).withOutput output
        (store.newNode kind payload scope).id).graph.nodes =
          store.graph.nodes ++ [store.newNode kind payload scope] := by
      cases output <;> rfl
    rw [hnodes, List.map_append, List.mem_append] at hid
    refine hid.imp_right fun hid => ?_
    rw [List.mem_singleton.mp hid]
    exact ⟨rfl, rfl⟩
  | removed => exact .inl ((List.filter_sublist.map Node.id).subset hid)
  | @redrawn node id' position => exact .inl (Graph.map_id_moved _ id' position ▸ hid)
  | @connected edge plan => exact .inl (Graph.map_id_plan plan _ _ ▸ hid)
  | @reconnected old edge plan => exact .inl (Graph.map_id_plan plan _ _ ▸ hid)
  | disconnected => exact .inl (map_id_rescope _ _ _ _ ▸ hid)

/-- **An edge after a change** has an id that was there, or the answer. -/
theorem edge_id_mem (h : Change store answer after) {id : String}
    (hid : id ∈ after.graph.edges.map Edge.id) :
    id ∈ store.graph.edges.map Edge.id ∨ answer = .ok (some id) := by
  cases h with
  | refused | variableRegistered | assistantRegistered | redrawn => exact .inl hid
  | added output => cases output <;> exact .inl hid
  | removed | disconnected => exact .inl ((List.filter_sublist.map Edge.id).subset hid)
  | @connected edge plan =>
    rw [EdgePlan.store, EdgePlan.graph, List.map_append, List.mem_append] at hid
    refine hid.imp (fun hid => (List.filter_sublist.map Edge.id).subset hid) fun hid => ?_
    rw [List.mem_singleton.mp hid]
  | @reconnected old edge plan hold =>
    obtain ⟨hmem, hsame⟩ := Graph.mem_of_edge? hold
    rw [EdgePlan.store, EdgePlan.graph, List.map_append, List.mem_append] at hid
    refine .inl (hid.elim (fun hid => (List.filter_sublist.map Edge.id).subset hid) fun hid => ?_)
    -- the edge takes the place of the one that had its id
    rw [List.mem_singleton.mp hid, ← hsame]
    exact List.mem_map_of_mem hmem

/-- **Only an id that is the answer** comes into use. -/
theorem usedIds_mem (h : Change store answer after) {id : String}
    (hid : id ∈ after.graph.usedIds) : id ∈ store.graph.usedIds ∨ answer = .ok (some id) := by
  rcases List.mem_append.mp hid with hid | hid
  · exact (h.node_id_mem hid).imp (List.mem_append_left _) And.right
  · exact (h.edge_id_mem hid).imp_left (List.mem_append_right _)

end Change

/-- Every operation keeps a store sound. -/
theorem Store.Sound.perform (h : store.Sound) (hreg : store.registry.OnlyBuiltins)
    (operation : Operation) : (store.perform operation).2.Sound :=
  (perform_change store operation).sound hreg h

end StepGraph
