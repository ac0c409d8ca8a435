import StepGraph.Proofs.Store.Reachable

/-!
# Taking back a step

A step that is added comes as one node behind the others, and as one variable
behind the others where it has an output (`Store.grown_withOutput`). The id of
the node is new, so no node lies inside it, no edge touches it, and it
produces no variable but that of the step. Removing it therefore gives back
the graph as it was, its tables with their index (`Graph.Grown.without_eq`).
What is asked before a step is added is asked of the graph and its registry
alone. So adding can be undone in every reachable store, and done again
(`addStep_undone`).
-/

namespace StepGraph

variable {registry : Registry} {store added : Store} {g after : Graph} {n : Node} {id : String}
variable {step : Step} {scope : Option Scope}

/-- **Well-formed tables with the same entries are equal**: the index says
nothing else. -/
theorem NameTable.WellFormed.ext {α : Type} [Named α] {table other : NameTable α}
    (h : table.WellFormed) (h' : other.WellFormed) (hentries : table.entries = other.entries) :
    table = other := by
  have hindex : table.index = other.index := by rw [h.index_eq, h'.index_eq, hentries]
  obtain ⟨entries, index⟩ := table
  obtain ⟨entries', index'⟩ := other
  obtain rfl : entries = entries' := hentries
  obtain rfl : index = index' := hindex
  rfl

/-! ## One more node -/

namespace Graph

/-- **A graph with one more node**, and with variables of this node behind the
others. -/
structure Grown (g after : Graph) (n : Node) : Prop where
  nodes : after.nodes = g.nodes ++ [n]
  edges : after.edges = g.edges
  vars : ∃ entries, after.vars.entries = g.vars.entries ++ entries ∧
    ∀ v ∈ entries, v.producer = n.id
  assistants : after.assistants = g.assistants

namespace Grown

/-- The node that has come has an id of its own. -/
theorem ne_of_mem (hgrown : g.Grown after n) (h' : after.Consistent) {m : Node}
    (hm : m ∈ g.nodes) : m.id ≠ n.id := by
  have hd : DistinctIds (g.nodes ++ [n]) := hgrown.nodes ▸ h'.rooted.distinct
  rw [DistinctIds, List.map_append, List.nodup_append] at hd
  exact hd.2.2 _ (List.mem_map_of_mem hm) _ List.mem_cons_self

/-- **Nothing lies inside the node that has come**: what was there stays when
it goes. -/
theorem not_mem_treeIds (hgrown : g.Grown after n) (h : g.Consistent) (h' : after.Consistent)
    {m : Node} (hm : m ∈ g.nodes) : m.id ∉ after.treeIds n.id := by
  intro hmem
  have hsub : g.nodes ⊆ after.nodes := hgrown.nodes ▸ List.subset_append_left _ _
  -- the chain of an old node passes old nodes only
  obtain ⟨chain, hchain⟩ := h.rooted.grounded m hm
  have hchain' : Chain after.nodes m.scope chain :=
    hchain.mono (List.Subset.trans hchain.subset hsub)
  obtain ⟨a, ha, hid⟩ := (mem_treeIds_iff h'.rooted.distinct (hsub hm) hchain').mp hmem
  have hold : a ∈ g.nodes := List.cons_subset.mpr ⟨hm, hchain.subset⟩ ha
  exact hgrown.ne_of_mem h' hold hid

/-- The nodes are those that were there. -/
theorem nodes_without (hgrown : g.Grown after n) (h : g.Consistent) (h' : after.Consistent) :
    (after.without n.id).nodes = g.nodes := by
  have hgone : n.id ∈ after.treeIds n.id := List.mem_cons_self
  have hkept : g.nodes.filter (fun m => !(after.treeIds n.id).contains m.id) = g.nodes :=
    List.filter_eq_self.mpr fun m hm => by simpa using hgrown.not_mem_treeIds h h' hm
  rw [without, hgrown.nodes, List.filter_append, hkept,
    List.filter_cons_of_neg (by simpa using hgone), List.filter_nil, List.append_nil]

/-- **Taking out the node that has come gives back the graph.** -/
theorem without_eq (hgrown : g.Grown after n) (h : g.Consistent) (h' : after.Consistent) :
    after.without n.id = g := by
  have hnodes := hgrown.nodes_without h h'
  have hedges : (after.without n.id).edges = g.edges := by
    rw [edges_without h', hnodes, hgrown.edges]
    exact List.filter_eq_self.mpr fun e he => decide_eq_true (h.ends e he)
  have hentries : (after.without n.id).vars.entries = g.vars.entries := by
    obtain ⟨entries, hvars, hproducer⟩ := hgrown.vars
    rw [vars_without h', hnodes, hvars, List.filter_append,
      List.filter_eq_self.mpr fun v hv => decide_eq_true (h.producers v hv),
      List.filter_eq_nil_iff.mpr fun v hv => ?_, List.append_nil]
    rw [decide_eq_true_eq, hproducer v hv, List.mem_map]
    rintro ⟨m, hm, hid⟩
    exact hgrown.ne_of_mem h' hm hid
  have hvars : (after.without n.id).vars = g.vars := (h'.without n.id).vars.ext h.vars hentries
  have hassistants : (after.without n.id).assistants = g.assistants := hgrown.assistants
  calc after.without n.id
      = ⟨(after.without n.id).nodes, (after.without n.id).edges, (after.without n.id).vars,
          (after.without n.id).assistants⟩ := rfl
    _ = g := by rw [hnodes, hedges, hvars, hassistants]

end Grown

end Graph

/-! ## One more step -/

/-- A node that is added with an output comes behind the others, and so does
its variable. -/
theorem Store.grown_withOutput (store : Store) (kind : String) (payload : Payload)
    (scope : Option Scope) (output : Option Output) :
    store.graph.Grown
      ((store.withNode kind payload scope).withOutput output
        (store.newNode kind payload scope).id).graph
      (store.newNode kind payload scope) := by
  cases output with
  | none => exact ⟨rfl, rfl, ⟨[], (List.append_nil _).symm, fun _ hv => (by cases hv)⟩, rfl⟩
  | some output =>
    refine ⟨rfl, rfl, ⟨_, rfl, fun v hv => ?_⟩, rfl⟩
    rw [List.mem_singleton.mp hv]
    rfl

/-- **A step is added** where it has a payload and an action may be placed. -/
theorem perform_addStep_eq_ok_iff {answer : Option String} :
    store.perform (.addStep step scope) = (.ok answer, added) ↔
      ∃ payload, Edit.stepPayload store.graph step = .ok payload ∧
        Placement.check store.registry store.graph.nodes none Builtin.action.tag payload scope =
          .ok () ∧
        answer = some (store.newNode Builtin.action.tag payload scope).id ∧
        added = (store.withNode Builtin.action.tag payload scope).withOutput step.output?
          (store.newNode Builtin.action.tag payload scope).id := by
  rw [Store.perform, Operation.edit, Edit.run_map, Edit.run_addStep]
  cases hpayload : Edit.stepPayload store.graph step with
  | error error => simp [Except.map]
  | ok payload =>
    dsimp only
    cases hcheck : Placement.check store.registry store.graph.nodes none Builtin.action.tag payload
      scope with
    | error error => simp [Except.map, hcheck]
    | ok u => simp [Except.map, hcheck, eq_comm]

/-- What adding a step asks of the store it asks of the graph and the
registry. -/
theorem exists_perform_addStep {other : Store} {answer : Option String}
    (hadd : store.perform (.addStep step scope) = (.ok answer, added))
    (hgraph : other.graph = store.graph) (hregistry : other.registry = store.registry) :
    ∃ id again, other.perform (.addStep step scope) = (.ok (some id), again) := by
  obtain ⟨payload, hpayload, hcheck, -⟩ := perform_addStep_eq_ok_iff.mp hadd
  rw [← hgraph] at hpayload hcheck
  rw [← hregistry] at hcheck
  exact ⟨_, _, perform_addStep_eq_ok_iff.mpr ⟨payload, hpayload, hcheck, rfl, rfl⟩⟩

/-- **Adding a step can be undone.** In a reachable store the node that a step
has been added as can be removed, and this leaves the graph as it was before:
nodes, edges, variables and assistants in their order, and every name found
where it was found. The same step can then be added to the same place again. -/
theorem addStep_undone (h : Reachable registry store)
    (hadd : store.perform (.addStep step scope) = (.ok (some id), added)) :
    ∃ removed, added.perform (.removeNode id) = (.ok none, removed) ∧
      removed.graph = store.graph ∧
      (∀ name, removed.graph.vars.lookup name = store.graph.vars.lookup name ∧
        removed.graph.vars.isResolvable name = store.graph.vars.isResolvable name ∧
        removed.graph.assistants.lookup name = store.graph.assistants.lookup name) ∧
      ∃ id' again, removed.perform (.addStep step scope) = (.ok (some id'), again) := by
  obtain ⟨hstore, -⟩ := h.consistent
  have hchange : Change store (.ok (some id)) added := by
    have hchange := perform_change store (.addStep step scope)
    rwa [hadd] at hchange
  have hadded : added.Consistent := hchange.consistent hstore
  obtain ⟨payload, -, -, hid, hstep⟩ := perform_addStep_eq_ok_iff.mp hadd
  obtain rfl := Option.some.inj hid
  have hgrown : store.graph.Grown added.graph (store.newNode Builtin.action.tag payload scope) :=
    hstep ▸ store.grown_withOutput _ payload scope step.output?
  have hnode : added.graph.node? (store.newNode Builtin.action.tag payload scope).id =
      some (store.newNode Builtin.action.tag payload scope) := by
    refine hadded.graph.rooted.distinct.find?_eq_some_iff.mpr ⟨?_, rfl⟩
    rw [hgrown.nodes]
    exact List.mem_append_right _ (List.mem_singleton_self _)
  have hgraph := hgrown.without_eq hstore.graph hadded.graph
  refine ⟨{ added with graph := added.graph.without _ }, ?_, hgraph, fun name => ?_,
    exists_perform_addStep hadd hgraph hchange.registry_eq⟩
  · rw [Store.perform, Operation.edit, Edit.run_map, Edit.run_removeNode, hnode]
    rfl
  · rw [hgraph]
    exact ⟨rfl, rfl, rfl⟩

/-- A group with an action that has a variable. -/
def groupedVariable : List Operation :=
  [.addNode "group" .empty none, .addNode "action" .empty none,
    .connect "node_00000000" "node_00000001" .primary,
    .registerVariable "total" "Total" "node_00000001"]

/-- The store of the run. Every word of the stream comes twice, so that the id
of the first node is drawn again for the second. -/
def Store.groupedVariable : Store :=
  ((Store.empty .builtin ⟨fun k => (k / 2).toUInt32, 0⟩).performAll StepGraph.groupedVariable).2

/-- A step that assigns a new variable. -/
def assignReply : Step := .setVariable ⟨"reply", "Reply"⟩ (.reference "total")

/-- The step is added to the group, and taken back. -/
theorem addStep_undone_groupedVariable :
    Reachable .builtin Store.groupedVariable ∧
      ∃ added removed, Store.groupedVariable.perform
          (.addStep assignReply (some ⟨"node_00000000", .body⟩)) =
            (.ok (some "node_00000002"), added) ∧
        added.graph.vars.entries =
          [⟨"total", "Total", "node_00000001"⟩, ⟨"reply", "Reply", "node_00000002"⟩] ∧
        added.perform (.removeNode "node_00000002") = (.ok none, removed) ∧
        removed.graph = Store.groupedVariable.graph ∧
        removed.graph.vars.lookup "reply" = none ∧
        ∃ id' again, removed.perform (.addStep assignReply (some ⟨"node_00000000", .body⟩)) =
          (.ok (some id'), again) := by
  have hreachable : Reachable .builtin Store.groupedVariable :=
    ⟨_, StepGraph.groupedVariable, .empty _, rfl⟩
  have hadd : Store.groupedVariable.perform
      (.addStep assignReply (some ⟨"node_00000000", .body⟩)) =
        (.ok (some "node_00000002"), _) := rfl
  obtain ⟨removed, hremove, hgraph, hnames, hagain⟩ := addStep_undone hreachable hadd
  refine ⟨hreachable, _, removed, hadd, rfl, hremove, hgraph, ?_, hagain⟩
  rw [(hnames "reply").1]
  rfl

end StepGraph
