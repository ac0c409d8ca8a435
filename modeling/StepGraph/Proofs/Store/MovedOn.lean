import StepGraph.Proofs.Store.Drawing
import StepGraph.Proofs.Store.Refusal
import StepGraph.Proofs.Store.Sequencing

/-!
# Sources that move on

An edge that leads next to its source says where the source is when the edge is
put in place. A move takes one node and leaves the edges that begin there and
the nodes next to it, so the source may move on alone. In a run the target of
such an edge stays where the source was, and the source is still there unless
an operation has moved it (`beside_or_moved_on`).
-/

namespace StepGraph

variable {registry : Registry} {store start drawn : Store} {g g' : Graph} {e edge : Edge}
variable {operation : Operation} {operations later : List Operation} {id : String}
variable {place : Option Scope} {n : Node}

/-! ## Places -/

/-- **Nodes that were there keep their places**, and no edge comes. -/
structure Graph.Keeps (g g' : Graph) : Prop where
  nodes : ∀ n' ∈ g'.nodes, n'.id ∈ g.nodes.map Node.id →
    ∃ n ∈ g.nodes, n.id = n'.id ∧ n.kind = n'.kind ∧ n.scope = n'.scope
  edges : g'.edges ⊆ g.edges

/-- Fewer nodes and edges keep their places. -/
theorem Graph.Keeps.of_subset (hnodes : g'.nodes ⊆ g.nodes) (hedges : g'.edges ⊆ g.edges) :
    g.Keeps g' :=
  ⟨fun n' hn' _ => ⟨n', hnodes hn', rfl, rfl, rfl⟩, hedges⟩

/-- A new node moves no other. -/
theorem Store.keeps_withNode (kind : String) (payload : Payload) (scope : Option Scope) :
    store.graph.Keeps (store.withNode kind payload scope).graph := by
  refine ⟨fun n' hn' hid => ?_, List.Subset.refl _⟩
  rcases List.mem_append.mp hn' with hn' | hn'
  · exact ⟨n', hn', rfl, rfl, rfl⟩
  · rw [List.mem_singleton.mp hn'] at hid
    exact absurd (List.mem_append_left _ hid) IdSource.next_not_mem

/-! ## Operations that move nodes -/

/-- **Operations that move a node**: an edge to it is drawn or moved, an edge is
moved away from it, or an edge to it is deleted. -/
inductive Store.Moves (store : Store) : Operation → String → Prop
  | placed {operation : Operation} {edge : Edge} {released : Option String} :
      store.Draws operation edge released → store.Moves operation edge.target
  | released {operation : Operation} {edge : Edge} {old : String} :
      store.Draws operation edge (some old) → store.Moves operation old
  | disconnected {id : String} {edge : Edge} :
      store.graph.edge? id = some edge → store.Moves (.disconnect id) edge.target

/-- Deleting an edge brings its target to the top level, or does nothing. -/
theorem perform_disconnect_graph (store : Store) (id : String) :
    (store.perform (.disconnect id)).2.graph = store.graph ∨
      ∃ edge, store.graph.edge? id = some edge ∧ (store.perform (.disconnect id)).2.graph =
        store.graph.released edge.target id store.nextSequence.number := by
  rw [Store.perform, Operation.edit, Edit.run_map, Edit.run_disconnect]
  split
  · exact .inl rfl
  · rename_i edge hedge
    split
    · exact .inl rfl
    · split
      · exact .inl rfl
      · exact .inr ⟨edge, hedge, rfl⟩

/-- **What an operation does to places**: nothing, or it puts an edge in place,
or it deletes one. -/
theorem perform_places (store : Store) (operation : Operation) :
    store.graph.Keeps (store.perform operation).2.graph ∨
      (∃ edge released answer, store.Draws operation edge released ∧
        store.perform operation = (.ok answer, (store.perform operation).2)) ∨
      ∃ id edge, operation = .disconnect id ∧ store.graph.edge? id = some edge ∧
        (store.perform operation).2.graph =
          store.graph.released edge.target id store.nextSequence.number := by
  have hsame : store.graph.Keeps store.graph := .of_subset (List.Subset.refl _) (List.Subset.refl _)
  cases hanswer : (store.perform operation).1 with
  | error error =>
    left
    have hchange := perform_change store operation
    rw [hanswer] at hchange
    rw [hchange.refused_eq]
    exact hsame
  | ok answer =>
    have hperform : store.perform operation = (.ok answer, (store.perform operation).2) :=
      Prod.ext hanswer rfl
    cases operation with
    | connect source target handle => exact .inr (.inl ⟨_, _, answer, .connect _ _ _, hperform⟩)
    | reconnect id source target handle =>
      obtain ⟨old, -, hold, -⟩ := perform_reconnect_eq_ok_iff.mp hperform
      exact .inr (.inl ⟨_, _, answer, .reconnect _ _ _ hold, hperform⟩)
    | disconnect id =>
      rcases perform_disconnect_graph store id with hkept | ⟨edge, hedge, hreleased⟩
      · left
        rw [hkept]
        exact hsame
      · exact .inr (.inr ⟨id, edge, rfl, hedge, hreleased⟩)
    | addNode kind payload scope =>
      left
      rw [Store.perform, Operation.edit, Edit.run_map, Edit.run_addNode]
      split
      · exact Store.keeps_withNode _ _ _
      · exact hsame
    | addStep step scope =>
      left
      rw [Store.perform, Operation.edit, Edit.run_map, Edit.run_addStep]
      split
      · exact hsame
      · split
        · exact hsame
        · rename_i payload _ _ _
          -- the variable of an output is neither a node nor an edge
          have hkeeps := store.keeps_withNode Builtin.action.tag payload scope
          cases step.output? <;> exact ⟨hkeeps.nodes, hkeeps.edges⟩
    | removeNode id =>
      left
      rw [Store.perform, Operation.edit, Edit.run_map, Edit.run_removeNode]
      split
      · exact hsame
      · exact .of_subset List.filter_sublist.subset List.filter_sublist.subset
    | moveNode id position =>
      left
      rw [Store.perform, Operation.edit, Edit.run_map, Edit.run_moveNode]
      split
      · exact hsame
      · refine ⟨fun n' hn' _ => ?_, List.Subset.refl _⟩
        obtain ⟨n, hn, rfl⟩ := List.mem_map.mp hn'
        refine ⟨n, hn, ?_⟩
        split <;> exact ⟨rfl, rfl, rfl⟩
    | registerVariable name displayName producer =>
      left
      rw [Store.perform, Operation.edit, Edit.run_map, Edit.run_registerVariable]
      split
      · exact hsame
      · split
        · exact hsame
        · exact ⟨hsame.nodes, hsame.edges⟩
    | registerAssistant name model personality =>
      left
      rw [Store.perform, Operation.edit, Edit.run_map, Edit.run_registerAssistant]
      split
      · exact hsame
      · exact ⟨hsame.nodes, hsame.edges⟩

/-- A node of a plan is as it was, or is one that the plan moves. -/
theorem EdgePlan.mem_nodes_cases {plan : EdgePlan} {nodes : List Node} {counter : Counter}
    (h : n ∈ plan.nodes counter nodes) :
    n ∈ nodes ∨ n.id = plan.target.id ∨ plan.orphan.map Node.id = some n.id := by
  have hplaced (hn : n ∈ Edit.rescope plan.target.id plan.scope counter.number nodes) :
      n ∈ nodes ∨ n.id = plan.target.id ∨ plan.orphan.map Node.id = some n.id := by
    rcases mem_rescope.mp hn with ⟨hn, -⟩ | ⟨t, -, hid, rfl⟩
    · exact .inl hn
    · exact .inr (.inl hid)
  unfold EdgePlan.nodes at h
  split at h
  · exact hplaced h
  · rename_i orphan horphan
    rcases mem_rescope.mp h with ⟨hn, -⟩ | ⟨t, -, hid, rfl⟩
    · exact hplaced hn
    · exact .inr (.inr (by rw [horphan, Option.map_some, hid]))

/-- **A node that was there** keeps its kind, and its place unless the operation
moves it. -/
theorem exists_of_mem_perform (h : n ∈ (store.perform operation).2.graph.nodes)
    (hid : n.id ∈ store.graph.nodes.map Node.id) :
    ∃ m ∈ store.graph.nodes, m.id = n.id ∧ m.kind = n.kind ∧
      (m.scope = n.scope ∨ store.Moves operation n.id) := by
  rcases perform_places store operation with hkeeps |
    ⟨edge, released, answer, hdraws, hperform⟩ | ⟨id, edge, rfl, hedge, hreleased⟩
  · obtain ⟨m, hm, hid, hkind, hscope⟩ := hkeeps.nodes n h hid
    exact ⟨m, hm, hid, hkind, .inl hscope⟩
  · obtain ⟨plan, replacing, hplan, rfl, hgraph, -⟩ := hdraws.exists_plan hperform
    rw [hgraph] at h
    obtain ⟨m, hm, hsame, hkind, -⟩ := EdgePlan.exists_of_mem_nodes h
    rcases EdgePlan.mem_nodes_cases h with hkept | htarget | horphan
    · exact ⟨n, hkept, rfl, rfl, .inl rfl⟩
    · refine ⟨m, hm, hsame, hkind, .inr ?_⟩
      rw [htarget, (EdgePlan.target_mem hplan).2]
      exact .placed hdraws
    · rw [horphan] at hdraws
      exact ⟨m, hm, hsame, hkind, .inr (.released hdraws)⟩
  · rw [hreleased] at h
    rcases mem_rescope.mp h with ⟨hkept, -⟩ | ⟨m, hm, hmoved, rfl⟩
    · exact ⟨n, hkept, rfl, rfl, .inl rfl⟩
    · exact ⟨m, hm, rfl, rfl, .inr (hmoved ▸ .disconnected hedge)⟩

/-- **An edge that was there** keeps its target in place: what moves are targets
of edges that go. -/
theorem edge_of_mem_perform (hstore : store.Consistent)
    (hstep : store.graph.InStep store.registry)
    (h : e ∈ (store.perform operation).2.graph.edges) :
    (∃ released answer, store.Draws operation e released ∧
      store.perform operation = (.ok answer, (store.perform operation).2)) ∨
    e ∈ store.graph.edges ∧ ∀ t ∈ (store.perform operation).2.graph.nodes, t.id = e.target →
      store.graph.LiesIn e.target t.scope := by
  rcases perform_places store operation with hkeeps |
    ⟨edge, released, answer, hdraws, hperform⟩ | ⟨id, edge, rfl, hedge, hreleased⟩
  · refine .inr ⟨hkeeps.edges h, fun t ht hid => ?_⟩
    have hthere : t.id ∈ store.graph.nodes.map Node.id :=
      hid ▸ (hstore.graph.ends e (hkeeps.edges h)).2
    obtain ⟨m, hm, hsame, -, hscope⟩ := hkeeps.nodes t ht hthere
    exact ⟨m, hm, hsame.trans hid, hscope⟩
  · obtain ⟨plan, replacing, hplan, rfl, hgraph, -⟩ := hdraws.exists_plan hperform
    rw [hgraph, EdgePlan.graph, List.mem_append, List.mem_filter, List.mem_singleton] at h
    rcases h with ⟨he, hkept⟩ | rfl
    · obtain ⟨hother, hne⟩ : some e.id ≠ replacing ∧ e.target ≠ plan.target.id := by
        simpa using hkept
      refine .inr ⟨he, fun t ht hid => ?_⟩
      rw [hgraph] at ht
      rcases EdgePlan.mem_nodes_cases ht with hkept | htarget | horphan
      · exact ⟨t, hkept, hid, rfl⟩
      · exact absurd (hid.symm.trans htarget) hne
      · obtain ⟨orphan, hsome, hoid⟩ := Option.map_eq_some_iff.mp horphan
        exact absurd (hid.symm.trans hoid.symm) (hstep.ne_orphan hplan hsome he hother)
    · exact .inl ⟨_, answer, hdraws, hperform⟩
  · rw [hreleased] at h ⊢
    obtain ⟨he, hkept⟩ := List.mem_filter.mp h
    refine .inr ⟨he, fun t ht hid => ?_⟩
    rcases mem_rescope.mp ht with ⟨hstays, -⟩ | ⟨m, hm, hmoved, rfl⟩
    · exact ⟨t, hstays, hid, rfl⟩
    · -- another edge to the node that moves would be the one that goes
      obtain ⟨hmem, heid⟩ := Graph.mem_of_edge? hedge
      rw [hstep.edge_eq he hmem (hid.symm.trans hmoved), heid] at hkept
      simp at hkept

/-! ## Runs -/

/-- **A run moves a node on**: one of its operations moves it to another
place. -/
def Store.MovesOn (start : Store) (operations : List Operation) (id : String) : Prop :=
  ∃ before operation later place, operations = before ++ operation :: later ∧
    (start.performAll before).2.Moves operation id ∧
    (start.performAll before).2.graph.LiesIn id place ∧
    ¬ (start.performAll (before ++ [operation])).2.graph.LiesIn id place

/-- **A run has drawn an edge**: one of its operations has put the edge in place
in the store `drawn`, and it has been there since. -/
structure Store.Drew (start : Store) (operations : List Operation) (e : Edge) (drawn : Store)
    (later : List Operation) : Prop where
  draws : ∃ before operation released answer, operations = before ++ operation :: later ∧
    (start.performAll before).2.Draws operation e released ∧
    (start.performAll before).2.perform operation = (.ok answer, drawn)
  stays : ∀ kept, kept <+: later → e ∈ (drawn.performAll kept).2.graph.edges

/-- What has moved a node has moved it in a longer run. -/
theorem Store.MovesOn.concat (h : start.MovesOn operations id) (operation : Operation) :
    start.MovesOn (operations ++ [operation]) id := by
  obtain ⟨before, moving, later, place, rfl, hmoves, hlies, hleft⟩ := h
  refine ⟨before, moving, later ++ [operation], place, ?_, hmoves, hlies, hleft⟩
  rw [List.append_assoc, List.cons_append]

namespace Store.Drew

/-- The run goes on from where the edge was drawn. -/
theorem performAll_eq (h : start.Drew operations e drawn later) :
    (start.performAll operations).2 = (drawn.performAll later).2 := by
  obtain ⟨before, operation, released, answer, rfl, -, hperform⟩ := h.draws
  rw [performAll_append, Store.performAll, hperform]

/-- An edge that stays has been drawn in a longer run. -/
theorem concat (h : start.Drew operations e drawn later) {operation : Operation}
    (hstays : e ∈ ((start.performAll operations).2.perform operation).2.graph.edges) :
    start.Drew (operations ++ [operation]) e drawn (later ++ [operation]) := by
  constructor
  · obtain ⟨before, drawing, released, answer, rfl, hdraws, hperform⟩ := h.draws
    refine ⟨before, drawing, released, answer, ?_, hdraws, hperform⟩
    rw [List.append_assoc, List.cons_append]
  · intro kept hkept
    rcases List.prefix_concat_iff.mp hkept with rfl | hkept
    · rw [performAll_concat, ← h.performAll_eq]
      exact hstays
    · exact h.stays kept hkept

end Store.Drew

/-- **What is known of an edge to a sibling in a run**: its target is in the
place where its source was when the edge was drawn, and the source is there as
well, or the run has moved it on since. -/
def Store.BesideOrMovedOn (start : Store) (operations : List Operation) (e : Edge) : Prop :=
  ∃ drawn later place, start.Drew operations e drawn later ∧
    drawn.graph.LiesIn e.source place ∧
    (start.performAll operations).2.graph.LiesIn e.target place ∧
    ((start.performAll operations).2.graph.LiesIn e.source place ∨ drawn.MovesOn later e.source)

section LastOperation

variable (hrun : (start.performAll operations).2 = store) (hstore : store.Consistent)
variable (hafter : (store.perform operation).2.Consistent)
variable (he : e ∈ (store.perform operation).2.graph.edges)

include hrun hstore hafter he

/-- **An edge that is drawn last** has its ends in one place. -/
theorem Store.Draws.besideOrMovedOn {released answer : Option String}
    (hdraws : store.Draws operation e released)
    (hperform : store.perform operation = (.ok answer, (store.perform operation).2))
    (hbeside : store.graph.LeadsBeside store.registry e) :
    start.BesideOrMovedOn (operations ++ [operation]) e := by
  subst hrun
  obtain ⟨place, hsource, htarget⟩ :
      ∃ place, ((start.performAll operations).2.perform operation).2.graph.LiesIn e.source place ∧
        ((start.performAll operations).2.perform operation).2.graph.LiesIn e.target place := by
    by_cases hne : e.source = e.target
    · obtain ⟨s, hs, hid⟩ := List.mem_map.mp (hafter.graph.ends e he).1
      exact ⟨s.scope, ⟨s, hs, hid, rfl⟩, ⟨s, hs, hid.trans hne, rfl⟩⟩
    · obtain ⟨plan, replacing, hplan, -, hgraph, -⟩ := hdraws.exists_plan hperform
      rw [hgraph]
      exact Graph.exists_place_of_plan hstore.graph hplan hbeside hne _
  refine ⟨_, [], place, ⟨⟨operations, operation, released, answer, rfl, hdraws, hperform⟩, ?_⟩,
    hsource, ?_, .inl ?_⟩
  · intro kept hkept
    rw [List.prefix_nil.mp hkept]
    exact he
  · rw [performAll_concat]
    exact htarget
  · rw [performAll_concat]
    exact hsource

/-- **An edge that stays** leaves its target in place, and its source unless the
operation moves it on. -/
theorem Store.BesideOrMovedOn.concat (h : start.BesideOrMovedOn operations e)
    (hbefore : e ∈ store.graph.edges)
    (hstays : ∀ t ∈ (store.perform operation).2.graph.nodes, t.id = e.target →
      store.graph.LiesIn e.target t.scope) :
    start.BesideOrMovedOn (operations ++ [operation]) e := by
  subst hrun
  obtain ⟨drawn, later, place, hdrew, hdrawn, htarget, hsource⟩ := h
  have hd := hstore.graph.rooted.distinct
  obtain ⟨t, ht, htid⟩ := List.mem_map.mp (hafter.graph.ends e he).2
  obtain ⟨s, hs, hsid⟩ := List.mem_map.mp (hafter.graph.ends e he).1
  obtain ⟨m, hm, hmid, -, hmoves⟩ :=
    exists_of_mem_perform hs (hsid ▸ (hstore.graph.ends e hbefore).1)
  refine ⟨drawn, later ++ [operation], place, hdrew.concat he, hdrawn, ?_, ?_⟩
  · rw [performAll_concat]
    exact ⟨t, ht, htid, (hstays t ht htid).unique hd htarget⟩
  by_cases hscope : m.scope = s.scope
  · rcases hsource with hsource | hmoved
    · left
      rw [performAll_concat]
      refine ⟨s, hs, hsid, hscope.symm.trans ?_⟩
      exact Graph.LiesIn.unique hd ⟨m, hm, hmid.trans hsid, rfl⟩ hsource
    · exact .inr (hmoved.concat operation)
  · right
    refine ⟨later, operation, [], m.scope, rfl, ?_, ?_, ?_⟩
    · rw [← hdrew.performAll_eq, ← hsid]
      exact hmoves.resolve_left hscope
    · rw [← hdrew.performAll_eq]
      exact ⟨m, hm, hmid.trans hsid, rfl⟩
    · rw [performAll_concat, ← hdrew.performAll_eq]
      intro hlies
      exact hscope (hlies.unique hafter.graph.rooted.distinct ⟨s, hs, hsid, rfl⟩)

end LastOperation

/-- A kind routes its edges the same after an operation. -/
theorem Graph.LeadsBeside.of_perform
    (h : (store.perform operation).2.graph.LeadsBeside registry e)
    (hsource : e.source ∈ store.graph.nodes.map Node.id) : store.graph.LeadsBeside registry e := by
  obtain ⟨s, hs, hid, kind, hkind, hroute⟩ := h
  obtain ⟨m, hm, hmid, hsame, -⟩ := exists_of_mem_perform hs (hid ▸ hsource)
  exact ⟨m, hm, hmid.trans hid, kind, hsame ▸ hkind, hroute⟩

/-- **Edges to siblings in a run** from a store without edges. -/
theorem besideOrMovedOn_of_mem (hreg : registry.OnlyBuiltins)
    (hstart : start.Sound ∧ start.registry = registry) (hempty : start.graph.edges = []) :
    ∀ e ∈ (start.performAll operations).2.graph.edges,
      (start.performAll operations).2.graph.LeadsBeside registry e →
      start.BesideOrMovedOn operations e := by
  have hinStep : start.graph.InStep registry := by
    constructor
    · rw [hempty]
      exact List.nodup_nil
    · rw [hempty]
      exact nofun
  -- along the run, from its beginning to its last operation
  induction operations using List.reverseRecOn with
  | nil =>
    intro e he
    rw [show (start.performAll []).2 = start from rfl, hempty] at he
    cases he
  | append_singleton operations operation ih =>
    intro e he hbeside
    obtain ⟨⟨hsound, hregistry⟩, hstep⟩ := inStep_performAll hreg ⟨hstart, hinStep⟩ operations
    rw [performAll_concat] at he hbeside
    have hstore := hsound.consistent
    have hafter := (hsound.perform (hregistry ▸ hreg) operation).consistent
    rw [← hregistry] at hstep
    rcases edge_of_mem_perform hstore hstep he with ⟨released, answer, hdraws, hperform⟩ |
      ⟨hbefore, hstays⟩
    · obtain ⟨plan, replacing, hplan, -⟩ := hdraws.exists_plan hperform
      obtain ⟨source, -, -, hsource, -⟩ := EdgePlan.ofEdge_eq_ok_iff.mp hplan
      obtain ⟨hs, hid⟩ := Graph.mem_of_node? hsource
      have hbeside := hbeside.of_perform (hid ▸ List.mem_map_of_mem hs)
      rw [← hregistry] at hbeside
      exact hdraws.besideOrMovedOn rfl hstore hafter he hperform hbeside
    · have hbeside := hbeside.of_perform (hstore.graph.ends e hbefore).1
      exact (ih e hbefore hbeside).concat rfl hstore hafter he hbefore hstays

/-- **Sequencing edges tell where their source was.** In every run from an empty
store, over built-in kinds and aliases, the target of an edge that leaves an
action on its primary handle is where the action was when the edge was put in
place. So the two have one place, unless since then an edge to the action has
been drawn, moved or deleted, or one has been moved away from it, and has taken
the action to another place. -/
theorem beside_or_moved_on (aliases : List (String × String)) (ids : IdSource)
    (operations : List Operation) :
    let registry := Registry.builtin.withAliases aliases
    let start := Store.empty registry ids
    let store := (start.performAll operations).2
    ∀ e ∈ store.graph.edges, ∀ s ∈ store.graph.nodes, s.id = e.source →
      registry.builtin? s.kind = some .action → e.handle = .primary →
      start.BesideOrMovedOn operations e := by
  intro registry start store e he s hs hid hkind hhandle
  have hreg : registry.OnlyBuiltins := Registry.onlyBuiltins_withAliases aliases
  refine besideOrMovedOn_of_mem hreg ⟨Store.sound_empty, rfl⟩ rfl e he
    ⟨s, hs, hid, Builtin.action.kind, hreg.builtin?_eq_some_iff.mp hkind, ?_⟩
  rw [hhandle]
  rfl

/-- An action that another follows, and then an edge that takes the first into a
group. -/
def movedIntoGroup : List Operation :=
  [.addNode "action" .empty none, .addNode "action" .empty none, .addNode "group" .empty none,
    .connect "node_00000000" "node_00000001" .primary,
    .connect "node_00000002" "node_00000000" .primary]

/-- The edge between the two actions. -/
def leftEdge : Edge :=
  ⟨"edge_00000003", "node_00000000", "node_00000001", .primary⟩

/-- The first action after the run. -/
def movedAction : Node :=
  ⟨"node_00000000", "action", some ⟨"node_00000002", .body⟩, 4, .origin, .empty⟩

theorem graph_movedIntoGroup :
    let store := ((Store.empty .builtin ⟨Nat.toUInt32, 0⟩).performAll movedIntoGroup).2
    store.graph.nodes = [movedAction, ⟨"node_00000001", "action", none, 3, .origin, .empty⟩,
        ⟨"node_00000002", "group", none, 2, .origin, .empty⟩] ∧
      store.graph.edges = [leftEdge, ⟨"edge_00000004", "node_00000002", "node_00000000",
        .primary⟩] := ⟨rfl, rfl⟩

theorem not_beside_movedIntoGroup :
    let store := ((Store.empty .builtin ⟨Nat.toUInt32, 0⟩).performAll movedIntoGroup).2
    ¬ ∃ place, store.graph.LiesIn leftEdge.source place ∧
      store.graph.LiesIn leftEdge.target place := by
  rintro store ⟨place, ⟨s, hs, hsid, hsource⟩, ⟨t, ht, htid, htarget⟩⟩
  rw [graph_movedIntoGroup.1] at hs ht
  simp only [List.mem_cons, List.not_mem_nil, or_false] at hs ht
  rcases hs with rfl | rfl | rfl
  · rcases ht with rfl | rfl | rfl
    · simp [movedAction, leftEdge] at htid
    · cases hsource.trans htarget.symm
    · simp [leftEdge] at htid
  · simp [leftEdge] at hsid
  · simp [leftEdge] at hsid

/-- The edge was drawn, and then the run has moved its source on. -/
theorem beside_or_moved_on_movedIntoGroup :
    leftEdge.handle = .primary ∧ ∃ drawn later,
      (Store.empty .builtin ⟨Nat.toUInt32, 0⟩).Drew movedIntoGroup leftEdge drawn later ∧
        drawn.MovesOn later leftEdge.source := by
  obtain ⟨hnodes, hedges⟩ := graph_movedIntoGroup
  obtain ⟨drawn, later, place, hdrew, -, htarget, hsource⟩ :=
    beside_or_moved_on [] ⟨Nat.toUInt32, 0⟩ movedIntoGroup leftEdge (hedges ▸ .head _) movedAction
      (hnodes ▸ .head _) rfl rfl rfl
  refine ⟨rfl, drawn, later, hdrew, hsource.resolve_left fun hbeside => ?_⟩
  exact not_beside_movedIntoGroup ⟨place, hbeside, htarget⟩

/-- **The source of an edge may move on alone**: after the run above the edge
still leaves the first action on its primary handle, and its ends are in two
places. -/
theorem source_moves_on_alone :
    let store := ((Store.empty .builtin ⟨Nat.toUInt32, 0⟩).performAll movedIntoGroup).2
    leftEdge ∈ store.graph.edges ∧ leftEdge.handle = .primary ∧
      (∃ s ∈ store.graph.nodes, s.id = leftEdge.source ∧
        Registry.builtin.builtin? s.kind = some .action) ∧
      ¬ ∃ place, store.graph.LiesIn leftEdge.source place ∧
        store.graph.LiesIn leftEdge.target place := by
  obtain ⟨hnodes, hedges⟩ := graph_movedIntoGroup
  exact ⟨hedges ▸ .head _, rfl, ⟨movedAction, hnodes ▸ .head _, rfl, rfl⟩,
    not_beside_movedIntoGroup⟩

end StepGraph
