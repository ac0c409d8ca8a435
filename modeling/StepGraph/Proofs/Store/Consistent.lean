import StepGraph.Proofs.Graph.Cycle
import StepGraph.Proofs.Graph.Descendants
import StepGraph.Proofs.Graph.Rooted
import StepGraph.Proofs.Ids.Fresh
import StepGraph.Proofs.Store.Counter

/-!
# What editing keeps whatever the kinds are

A graph is consistent when all ids are different, its nodes are rooted, edges
and variables refer to nodes, and the name tables are well formed
(`Graph.Consistent`); a store is consistent when its graph is and no node has
reached the next sequence number, unless the counter has gone round
(`Store.Consistent`). Kinds say which places
are legal, and nothing of this depends on them: it is enough that the owner
of a place that was accepted is there. Each change of a store keeps it
(`Change.consistent`). What a change does to the nodes leaves their ids as
they are or takes some away with all that refers to them, so the references
are dealt with once for all moves (`Graph.Consistent.reroot`).
-/

namespace StepGraph

variable {registry : Registry} {g : Graph} {store after : Store}

/-- **A consistent graph.** -/
structure Graph.Consistent (g : Graph) : Prop where
  /-- The ids of nodes and edges are different, all together. -/
  ids : g.usedIds.Nodup
  /-- Chains of owners end. -/
  rooted : Rooted g.nodes
  /-- Both ends of an edge are nodes. -/
  ends : ∀ e ∈ g.edges, e.source ∈ g.nodes.map Node.id ∧ e.target ∈ g.nodes.map Node.id
  /-- The producer of a variable is a node. -/
  producers : ∀ v ∈ g.vars.entries, v.producer ∈ g.nodes.map Node.id
  vars : g.vars.WellFormed
  assistants : g.assistants.WellFormed

/-- **A consistent store**: its graph is consistent, and new nodes come behind
all others while the counter is exact. -/
structure Store.Consistent (store : Store) : Prop where
  graph : store.graph.Consistent
  sequences : store.nextSequence.Exact →
    ∀ n ∈ store.graph.nodes, n.sequence < store.nextSequence.number

/-- A place is accepted only where its owner is, apart from the node that
moves. -/
theorem Placement.exists_owner_of_check {nodes : List Node} {moving : Option String}
    {kind : String} {payload : Payload} {scope : Scope}
    (h : Placement.check registry nodes moving kind payload (some scope) = .ok ()) :
    ∃ owner ∈ withoutMoving nodes moving, owner.id = scope.owner := by
  rw [Placement.check] at h
  split at h
  · cases h
  · rename_i owner hfind
    exact ⟨owner, mem_of_find?_id hfind⟩

namespace Graph

/-- A node that is found is a node of the graph. -/
theorem mem_of_node? {id : String} {n : Node} (h : g.node? id = some n) : n ∈ g.nodes ∧ n.id = id :=
  mem_of_find?_id h

/-- An edge that is found is an edge of the graph. -/
theorem mem_of_edge? {id : String} {e : Edge} (h : g.edge? id = some e) : e ∈ g.edges ∧ e.id = id :=
  ⟨List.mem_of_find?_eq_some h, by simpa using List.find?_some h⟩

end Graph

namespace EdgePlan

variable {replacing : Option String} {edge : Edge} {plan : EdgePlan}

/-- The target of a plan is the node that the edge names. -/
theorem target_mem (h : ofEdge registry g replacing edge = .ok plan) :
    plan.target ∈ g.nodes ∧ plan.target.id = edge.target := by
  obtain ⟨-, -, -, -, htarget, -⟩ := ofEdge_eq_ok_iff.mp h
  exact Graph.mem_of_node? htarget

/-- **The node that falls back** is the target of the edge that is replaced,
where this is another one. -/
theorem map_id_orphan (h : ofEdge registry g replacing edge = .ok plan) :
    plan.orphan.map Node.id = (replacing.bind g.edge?).bind fun old =>
      if old.target = edge.target then none else some old.target := by
  obtain ⟨-, -, -, -, -, -, horphan, -⟩ := ofEdge_eq_ok_iff.mp h
  rcases orphanOf_eq_ok_iff.mp horphan with
    ⟨hnone, hold⟩ | ⟨old, node, hold, hne, hnode, -, hsome⟩
  · rw [hnone]
    cases hedge : replacing.bind g.edge? with
    | none => rfl
    | some old => simp [hold old hedge]
  · obtain ⟨-, hid⟩ := Graph.mem_of_node? hnode
    simp [hsome, hold, hid, hne]

/-- The node that falls back is a node of the graph, and not the target. -/
theorem mem_of_orphan (h : ofEdge registry g replacing edge = .ok plan) {node : Node}
    (hnode : plan.orphan = some node) : node ∈ g.nodes ∧ node.id ≠ plan.target.id := by
  obtain ⟨-, -, -, -, -, -, horphan, -⟩ := ofEdge_eq_ok_iff.mp h
  rcases orphanOf_eq_ok_iff.mp horphan with ⟨hnone, -⟩ | ⟨old, found, -, hne, hfound, -, hsome⟩
  · cases hnode.symm.trans hnone
  · cases hnode.symm.trans hsome
    obtain ⟨hmem, hid⟩ := Graph.mem_of_node? hfound
    exact ⟨hmem, by rw [hid, (target_mem h).2]; exact hne⟩

end EdgePlan

namespace Graph

namespace Consistent

/-- No node has the id of an edge. -/
theorem ne_of_mem (h : g.Consistent) {e : Edge} (he : e ∈ g.edges) :
    e.id ∉ g.nodes.map Node.id := fun hmem =>
  (List.nodup_append.mp h.ids).2.2 _ hmem _ (List.mem_map_of_mem he) rfl

/-- An owner is a node. -/
theorem owner_mem (h : g.Consistent) {n : Node} (hn : n ∈ g.nodes) {scope : Scope}
    (hscope : n.scope = some scope) : scope.owner ∈ g.nodes.map Node.id := by
  obtain ⟨chain, hchain⟩ := h.rooted.grounded n hn
  rw [hscope] at hchain
  cases hchain with
  | up hmem hid _ => exact hid ▸ List.mem_map_of_mem hmem

/-- A place that was accepted is grounded. -/
theorem grounded_of_check (h : g.Consistent) {moving : Option String} {kind : String}
    {payload : Payload} {scope : Option Scope}
    (hcheck : Placement.check registry g.nodes moving kind payload scope = .ok ()) :
    Grounded g.nodes scope := by
  refine h.rooted.grounded_of_owner fun s hs => ?_
  obtain ⟨owner, hmem, hid⟩ := Placement.exists_owner_of_check (hs ▸ hcheck)
  exact ⟨owner, List.mem_of_mem_filter hmem, hid⟩

/-! ## Changes of nodes and edges -/

/-- **Nodes under the same ids** that are rooted keep a graph consistent. -/
theorem reroot (h : g.Consistent) {nodes : List Node}
    (hids : nodes.map Node.id = g.nodes.map Node.id) (hrooted : Rooted nodes) :
    Consistent { g with nodes } where
  ids := by rw [usedIds, hids]; exact h.ids
  rooted := hrooted
  ends := by dsimp only; rw [hids]; exact h.ends
  producers := by dsimp only; rw [hids]; exact h.producers
  vars := h.vars
  assistants := h.assistants

/-- Fewer edges keep a graph consistent. -/
theorem filterEdges (h : g.Consistent) (keep : Edge → Bool) :
    Consistent { g with edges := g.edges.filter keep } :=
  { h with
    ids := h.ids.sublist (List.filter_sublist.map Edge.id |>.append_left _)
    ends := fun e he => h.ends e (List.mem_of_mem_filter he) }

/-- One more edge between nodes, under a new id, keeps a graph consistent. -/
theorem addEdge (h : g.Consistent) {edge : Edge} (hnew : edge.id ∉ g.usedIds)
    (hsource : edge.source ∈ g.nodes.map Node.id) (htarget : edge.target ∈ g.nodes.map Node.id) :
    Consistent { g with edges := g.edges ++ [edge] } :=
  { h with
    ids := by
      rw [usedIds, List.map_append, List.map_singleton, ← List.append_assoc,
        ← List.concat_eq_append]
      exact h.ids.concat hnew
    ends := fun e he => by
      rcases List.mem_append.mp he with he | he
      · exact h.ends e he
      · rw [List.mem_singleton.mp he]
        exact ⟨hsource, htarget⟩ }

/-- One more node, under a new id and with an owner that is there, keeps a
graph consistent. -/
theorem addNode (h : g.Consistent) {n : Node} (hnew : n.id ∉ g.usedIds)
    (hscope : Grounded g.nodes n.scope) : Consistent { g with nodes := g.nodes ++ [n] } := by
  have hnode : n.id ∉ g.nodes.map Node.id := fun hmem => hnew (List.mem_append_left _ hmem)
  have hsub : g.nodes.map Node.id ⊆ (g.nodes ++ [n]).map Node.id := by
    rw [List.map_append]
    exact List.subset_append_left _ _
  refine { h with ids := ?_, rooted := h.rooted.append hnode hscope, ends := ?_, producers := ?_ }
  · have hperm :
        ((g.nodes ++ [n]).map Node.id ++ g.edges.map Edge.id).Perm (n.id :: g.usedIds) := by
      rw [List.map_append, List.map_singleton, List.append_assoc, List.singleton_append]
      exact List.perm_middle
    exact hperm.nodup_iff.mpr (List.nodup_cons.mpr ⟨hnew, h.ids⟩)
  · exact fun e he => ⟨hsub (h.ends e he).1, hsub (h.ends e he).2⟩
  · exact fun v hv => hsub (h.producers v hv)

end Consistent

/-! ## Removing -/

/-- **What goes away with a node** are the node and those on whose chain it
stands. -/
theorem mem_treeIds_iff (hd : DistinctIds g.nodes) {n : Node} {id : String} {chain : List Node}
    (hn : n ∈ g.nodes) (hchain : Chain g.nodes n.scope chain) :
    n.id ∈ g.treeIds id ↔ ∃ a ∈ n :: chain, a.id = id := by
  rw [treeIds, List.mem_cons, List.mem_map, List.exists_mem_cons_iff]
  refine or_congr_right ⟨fun ⟨m, hm, hid⟩ => ?_, fun hmem => ?_⟩
  · obtain rfl := hd.eq (mem_of_mem_descendantsTo hm) hn hid
    exact (mem_descendants_iff hd hn hchain).mp hm
  · exact ⟨n, (mem_descendants_iff hd hn hchain).mpr hmem, rfl⟩

/-- What lies in a node that goes away goes away. -/
theorem mem_treeIds_of_owns (h : Rooted g.nodes) {owner n : Node} {id : String}
    (hown : Owns g.nodes owner n) (hn : n ∈ g.nodes) (howner : owner.id ∈ g.treeIds id) :
    n.id ∈ g.treeIds id := by
  obtain ⟨hmem, howned⟩ := hown
  obtain ⟨chain, hchain⟩ := h.grounded owner hmem
  rw [mem_treeIds_iff h.distinct hmem hchain] at howner
  rw [mem_treeIds_iff h.distinct hn (hchain.cons_of_owner? hmem howned)]
  obtain ⟨a, ha, hid⟩ := howner
  exact ⟨a, List.mem_cons_of_mem _ ha, hid⟩

/-- What is kept of the nodes has kept its owner. -/
theorem keeps_owner (h : Rooted g.nodes) {owner n : Node} (id : String)
    (hown : Owns g.nodes owner n) (hn : n ∈ g.nodes)
    (hkept : (!(g.treeIds id).contains n.id) = true) :
    (!(g.treeIds id).contains owner.id) = true := by
  have hkept : n.id ∉ g.treeIds id := by simpa using hkept
  simpa using fun howner => hkept (mem_treeIds_of_owns h hown hn howner)

/-- **What is left has the ids that do not go away.** -/
theorem mem_ids_without {id other : String} :
    other ∈ (g.without id).nodes.map Node.id ↔
      other ∈ g.nodes.map Node.id ∧ other ∉ g.treeIds id := by
  simp only [without, List.mem_map, List.mem_filter, Bool.not_eq_true', List.contains_eq_mem,
    decide_eq_false_iff_not]
  constructor
  · rintro ⟨n, ⟨hn, hkept⟩, rfl⟩
    exact ⟨⟨n, hn, rfl⟩, hkept⟩
  · rintro ⟨⟨n, hn, rfl⟩, hkept⟩
    exact ⟨n, ⟨hn, hkept⟩, rfl⟩

/-- **The edges that are left** are those between nodes that are left. -/
theorem edges_without (h : g.Consistent) (id : String) :
    (g.without id).edges = g.edges.filter fun e =>
      e.source ∈ (g.without id).nodes.map Node.id ∧
        e.target ∈ (g.without id).nodes.map Node.id := by
  refine List.filter_congr fun e he => ?_
  obtain ⟨hsource, htarget⟩ := h.ends e he
  rw [Bool.eq_iff_iff, decide_eq_true_eq, mem_ids_without, mem_ids_without,
    and_iff_right hsource, and_iff_right htarget]
  simp only [Edge.touches, Bool.not_eq_true', List.any_eq_false, Bool.or_eq_true, beq_iff_eq]
  constructor
  · exact fun hnone => ⟨fun hmem => hnone _ hmem (.inl rfl), fun hmem => hnone _ hmem (.inr rfl)⟩
  · rintro ⟨hs, ht⟩ other hmem (rfl | rfl)
    · exact hs hmem
    · exact ht hmem

/-- **The variables that are left** are those of producers that are left. -/
theorem vars_without (h : g.Consistent) (id : String) :
    (g.without id).vars.entries = g.vars.entries.filter fun v =>
      v.producer ∈ (g.without id).nodes.map Node.id := by
  refine List.filter_congr fun v hv => ?_
  rw [Bool.eq_iff_iff, decide_eq_true_eq, mem_ids_without, and_iff_right (h.producers v hv)]
  simp

/-- **Removing a node with all inside it** keeps a graph consistent. -/
theorem Consistent.without (h : g.Consistent) (id : String) : (g.without id).Consistent where
  ids := h.ids.sublist (.append (List.filter_sublist.map _) (List.filter_sublist.map _))
  rooted := h.rooted.filter fun owner n hown hn hkept => keeps_owner h.rooted id hown hn hkept
  ends e he := by
    rw [edges_without h, List.mem_filter, decide_eq_true_eq] at he
    exact he.2
  producers v hv := by
    rw [vars_without h, List.mem_filter, decide_eq_true_eq] at hv
    exact hv.2
  vars := h.vars.filter _
  assistants := h.assistants

/-! ## Moving -/

/-- **What a plan checks of circles**: the chain of the new place does not go
through the target. -/
theorem Consistent.exists_chain_of_plan (h : g.Consistent) {replacing : Option String}
    {edge : Edge} {plan : EdgePlan} (hplan : EdgePlan.ofEdge registry g replacing edge = .ok plan) :
    ∃ chain, Chain g.nodes plan.scope chain ∧ ∀ a ∈ chain, a.id ≠ plan.target.id := by
  obtain ⟨-, -, -, -, -, -, -, -, -, hacyclic, hcheck⟩ := EdgePlan.ofEdge_eq_ok_iff.mp hplan
  obtain ⟨chain, hchain⟩ := h.grounded_of_check hcheck
  exact ⟨chain, hchain, (Placement.checkAcyclic_eq_ok_iff h.rooted.distinct hchain).mp hacyclic⟩

/-- **The nodes of a planned edge are rooted.** The new place of the target is
checked before anything moves, and the node that falls back goes to the top
level. -/
theorem Consistent.rooted_plan (h : g.Consistent) {replacing : Option String} {edge : Edge}
    {plan : EdgePlan} (counter : Counter)
    (hplan : EdgePlan.ofEdge registry g replacing edge = .ok plan) :
    Rooted (plan.nodes counter g.nodes) := by
  obtain ⟨chain, hchain, havoid⟩ := h.exists_chain_of_plan hplan
  have hmoved : Rooted (Edit.rescope plan.target.id plan.scope counter.number g.nodes) :=
    h.rooted.rescope hchain havoid
  rw [EdgePlan.nodes]
  cases plan.orphan with
  | none => exact hmoved
  | some orphan => exact hmoved.rescope .top fun _ ha => (by cases ha)

/-- A plan changes no id. -/
theorem map_id_plan (plan : EdgePlan) (counter : Counter) (nodes : List Node) :
    (plan.nodes counter nodes).map Node.id = nodes.map Node.id := by
  rw [EdgePlan.nodes]
  cases plan.orphan with
  | none => exact map_id_rescope _ _ _ _
  | some orphan => exact (map_id_rescope _ _ _ _).trans (map_id_rescope _ _ _ _)

/-- Drawing a node elsewhere changes no id. -/
theorem map_id_moved (g : Graph) (id : String) (position : Position) :
    (g.moved id position).nodes.map Node.id = g.nodes.map Node.id := by
  rw [moved, List.map_map]
  refine List.map_congr_left fun n _ => ?_
  rw [Function.comp_apply]
  split <;> rfl

/-- Drawing a node elsewhere keeps nodes rooted. -/
theorem rooted_moved (h : Rooted g.nodes) (id : String) (position : Position) :
    Rooted (g.moved id position).nodes := by
  refine h.map (fun n => ?_) fun n _ => .inl ?_ <;> split <;> rfl

/-- **Putting an edge in place** keeps a graph consistent, where the id of the
edge is new but for the edge that it replaces. -/
theorem Consistent.plan (h : g.Consistent) {replacing : Option String} {edge : Edge}
    {plan : EdgePlan} (counter : Counter)
    (hplan : EdgePlan.ofEdge registry g replacing edge = .ok plan)
    (hnode : edge.id ∉ g.nodes.map Node.id)
    (hedge : ∀ e ∈ g.edges, e.id = edge.id → some e.id = replacing) :
    (plan.graph replacing edge counter g).Consistent := by
  obtain ⟨source, kind, route, hsource, -⟩ := EdgePlan.ofEdge_eq_ok_iff.mp hplan
  obtain ⟨hs, hsid⟩ := mem_of_node? hsource
  obtain ⟨ht, htid⟩ := EdgePlan.target_mem hplan
  have hids := map_id_plan plan counter g.nodes
  refine ((h.reroot hids (h.rooted_plan counter hplan)).filterEdges _).addEdge ?_ ?_ ?_
  · rw [usedIds, hids, List.mem_append]
    rintro (hmem | hmem)
    · exact hnode hmem
    · obtain ⟨e, he, heid⟩ := List.mem_map.mp hmem
      obtain ⟨he, hkept⟩ := List.mem_filter.mp he
      -- the edge that had this id is the one that is replaced, and it is gone
      simp [hedge e he heid] at hkept
  · rw [hids, ← hsid]
    exact List.mem_map_of_mem hs
  · rw [hids, ← htid]
    exact List.mem_map_of_mem ht

end Graph

/-! ## Sequence numbers -/

/-- A move gives one new number and keeps the others. -/
theorem sequence_lt_of_mem_rescope {nodes : List Node} {id : String} {scope : Option Scope}
    {sequence bound bound' : Nat} (h : ∀ n ∈ nodes, n.sequence < bound) (hle : bound ≤ bound')
    (hlt : sequence < bound') :
    ∀ n ∈ Edit.rescope id scope sequence nodes, n.sequence < bound' := by
  intro n hn
  rcases mem_rescope.mp hn with ⟨hn, -⟩ | ⟨t, -, -, rfl⟩
  · exact Nat.lt_of_lt_of_le (h n hn) hle
  · exact hlt

/-- A plan takes its numbers from the counter, as long as it does not go
round. -/
theorem sequence_lt_of_mem_plan {plan : EdgePlan} {nodes : List Node} {counter : Counter}
    (hexact : (plan.counter counter).Exact) (h : ∀ n ∈ nodes, n.sequence < counter.number) :
    ∀ n ∈ plan.nodes counter nodes, n.sequence < (plan.counter counter).number := by
  have hplaced (hnext : counter.next.Exact) :
      ∀ n ∈ Edit.rescope plan.target.id plan.scope counter.number nodes,
        n.sequence < counter.next.number :=
    sequence_lt_of_mem_rescope h hnext.number_lt_next.le hnext.number_lt_next
  rw [EdgePlan.counter] at hexact ⊢
  rw [EdgePlan.nodes]
  cases horphan : plan.orphan with
  | none =>
    rw [horphan] at hexact
    exact hplaced hexact
  | some orphan =>
    rw [horphan] at hexact
    exact sequence_lt_of_mem_rescope (hplaced hexact.of_next) hexact.number_lt_next.le
      hexact.number_lt_next

/-! ## Changes -/

/-- **Every change keeps a store consistent**, over any registry. -/
theorem Change.consistent {answer : Except EditError (Option String)}
    (h : Change store answer after) (hstore : store.Consistent) : after.Consistent := by
  obtain ⟨hgraph, hseq⟩ := hstore
  have hback := h.exact
  cases h with
  | refused => exact ⟨hgraph, hseq⟩
  | @added kind payload scope output hcheck hinsert =>
    have hadded : (store.withNode kind payload scope).Consistent := by
      refine ⟨hgraph.addNode IdSource.next_not_mem (hgraph.grounded_of_check hcheck),
        fun (hexact : store.nextSequence.next.Exact) n hn => ?_⟩
      rcases List.mem_append.mp hn with hn | hn
      · exact (hseq hexact.of_next n hn).trans hexact.number_lt_next
      · rw [List.mem_singleton.mp hn]
        exact hexact.number_lt_next
    cases output with
    | none => exact hadded
    | some output =>
      obtain ⟨vars, hvars⟩ := hinsert output rfl
      -- the producer of the output is the node that has just come
      refine ⟨{ hadded.graph with producers := ?_, vars := ?_ }, hadded.sequences⟩
      · intro v hv
        rcases List.mem_append.mp hv with hv | hv
        · exact hadded.graph.producers v hv
        · rw [List.mem_singleton.mp hv]
          exact List.mem_map_of_mem (List.mem_append_right _ (List.mem_singleton_self _))
      · exact hgraph.vars.insert (Edit.insert_outputVariable hvars)
  | removed => exact ⟨hgraph.without _, fun hexact n hn => hseq hexact n (List.mem_of_mem_filter hn)⟩
  | @redrawn node id position =>
    refine ⟨hgraph.reroot (Graph.map_id_moved _ id position)
      (Graph.rooted_moved hgraph.rooted id position), fun hexact n' hn' => ?_⟩
    obtain ⟨n, hn, rfl⟩ := List.mem_map.mp hn'
    split <;> exact hseq hexact n hn
  | @connected edge plan ids hid hplan =>
    have hnew : edge.id ∉ store.graph.usedIds := hid ▸ IdSource.next_not_mem
    rw [Graph.usedIds, List.mem_append, not_or] at hnew
    obtain ⟨hnode, hedge⟩ := hnew
    -- the new id is that of no edge, so nothing has to be replaced
    refine ⟨hgraph.plan store.nextSequence hplan hnode fun e he heid => ?_,
      fun hexact => sequence_lt_of_mem_plan hexact (hseq (hback hexact))⟩
    exact absurd (heid ▸ List.mem_map_of_mem he) hedge
  | @reconnected old edge plan hold hplan =>
    obtain ⟨hmem, hid⟩ := Graph.mem_of_edge? hold
    refine ⟨hgraph.plan store.nextSequence hplan (hid ▸ hgraph.ne_of_mem hmem) ?_,
      fun hexact => sequence_lt_of_mem_plan hexact (hseq (hback hexact))⟩
    exact fun e _ heid => congrArg some heid
  | disconnected =>
    exact ⟨(hgraph.reroot (map_id_rescope _ _ _ _)
        (hgraph.rooted.rescope .top fun _ ha => (by cases ha))).filterEdges _,
      fun (hexact : store.nextSequence.next.Exact) => sequence_lt_of_mem_rescope
        (hseq hexact.of_next) hexact.number_lt_next.le hexact.number_lt_next⟩
  | @variableRegistered node entry vars hinsert hnode =>
    obtain ⟨hmem, hid⟩ := Graph.mem_of_node? hnode
    refine ⟨{ hgraph with producers := ?_, vars := hgraph.vars.insert hinsert }, hseq⟩
    obtain ⟨-, -, rfl⟩ := NameTable.insert_eq_ok_iff.mp hinsert
    intro v hv
    rcases List.mem_append.mp hv with hv | hv
    · exact hgraph.producers v hv
    · rw [List.mem_singleton.mp hv, ← hid]
      exact List.mem_map_of_mem hmem
  | assistantRegistered hinsert =>
    exact ⟨{ hgraph with assistants := hgraph.assistants.insert hinsert }, hseq⟩

end StepGraph
