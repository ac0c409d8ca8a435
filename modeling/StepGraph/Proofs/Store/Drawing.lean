import StepGraph.Proofs.Store.Reachable

/-!
# Edges in step with scopes

An edge is a drawing of how its target came to be where it is, and it stays
true: as long as it is there, its target is in the slot, or at the top level,
where the kind of its source sends it (`Edge.Follows`). The nodes that a
change moves are targets of edges that go away or are drawn anew, and since
no node is the target of two edges (`Graph.InStep`), no other edge is left
behind (`Change.inStep`). Of an edge to a sibling nothing is said: its source
may move on without it.
-/

namespace StepGraph

variable {registry : Registry} {g : Graph} {store after : Store} {nodes nodes' : List Node}
variable {e edge : Edge} {plan : EdgePlan}

/-- **What a route says of the target's scope.** -/
def Route.Holds (source target : Node) : Route → Prop
  | .slot place => target.scope = some ⟨source.id, place⟩
  | .root => target.scope = none
  | .sibling => True

/-- **The target of an edge is where the source's kind sends it.** -/
def Edge.Follows (registry : Registry) (nodes : List Node) (e : Edge) : Prop :=
  ∀ source ∈ nodes, source.id = e.source → ∀ target ∈ nodes, target.id = e.target →
    ∀ kind route, registry.get? source.kind = some kind → kind.route e.handle = .ok route →
      route.Holds source target

/-- **Edges in step with scopes.** -/
structure Graph.InStep (registry : Registry) (g : Graph) : Prop where
  /-- No node is the target of two edges. -/
  targets : (g.edges.map Edge.target).Nodup
  follows : ∀ e ∈ g.edges, e.Follows registry g.nodes

/-! ## Nodes that move -/

namespace Edge.Follows

/-- An edge stays in step where its source keeps its kind and its target its
scope. -/
theorem mono (h : e.Follows registry nodes)
    (hsource : ∀ n' ∈ nodes', n'.id = e.source → ∃ n ∈ nodes, n.id = n'.id ∧ n.kind = n'.kind)
    (htarget : ∀ n' ∈ nodes', n'.id = e.target → ∃ n ∈ nodes, n.id = n'.id ∧ n.scope = n'.scope) :
    e.Follows registry nodes' := by
  intro source' hs' hsid target' ht' htid kind route hkind hroute
  obtain ⟨source, hs, hid, hsame⟩ := hsource source' hs' hsid
  obtain ⟨target, ht, hid', hscope⟩ := htarget target' ht' htid
  have hholds := h source hs (hid.trans hsid) target ht (hid'.trans htid) kind route
    (hsame ▸ hkind) hroute
  cases route with
  | slot slot => exact hscope.symm.trans (hholds.trans (by rw [hid]))
  | root => exact hscope.symm.trans hholds
  | sibling => trivial

/-- Fewer nodes keep an edge in step. -/
theorem subset (h : e.Follows registry nodes) (hsub : nodes' ⊆ nodes) :
    e.Follows registry nodes' :=
  h.mono (fun n' hn' _ => ⟨n', hsub hn', rfl, rfl⟩) fun n' hn' _ => ⟨n', hsub hn', rfl, rfl⟩

/-- The move of a node keeps every edge in step that leads elsewhere. -/
theorem rescope (h : e.Follows registry nodes) {id : String} (hne : e.target ≠ id)
    (scope : Option Scope) (sequence : Nat) :
    e.Follows registry (Edit.rescope id scope sequence nodes) := by
  refine h.mono (fun n' hn' _ => ?_) fun n' hn' hid => ?_
  · rcases mem_rescope.mp hn' with ⟨hn, -⟩ | ⟨n, hn, -, rfl⟩
    · exact ⟨n', hn, rfl, rfl⟩
    · exact ⟨n, hn, rfl, rfl⟩
  · rcases mem_rescope.mp hn' with ⟨hn, -⟩ | ⟨n, hn, hmoved, rfl⟩
    · exact ⟨n', hn, rfl, rfl⟩
    · exact absurd (hid.symm.trans hmoved) hne

/-- A plan keeps every edge in step that leads to no node of the plan. -/
theorem planned (h : e.Follows registry nodes) (hne : e.target ≠ plan.target.id)
    (horphan : ∀ orphan, plan.orphan = some orphan → e.target ≠ orphan.id) (counter : Counter) :
    e.Follows registry (plan.nodes counter nodes) := by
  rw [EdgePlan.nodes]
  cases hnone : plan.orphan with
  | none => exact h.rescope hne _ _
  | some orphan => exact (h.rescope hne _ _).rescope (horphan orphan hnone) _ _

end Edge.Follows

/-! ## The nodes of a plan -/

namespace EdgePlan

/-- A plan changes neither kinds nor payloads. -/
theorem exists_of_mem_nodes {counter : Counter} {n' : Node} (h : n' ∈ plan.nodes counter nodes) :
    ∃ n ∈ nodes, n.id = n'.id ∧ n.kind = n'.kind ∧ n.payload = n'.payload := by
  have hmoved {others : List Node} {id : String} {scope : Option Scope} {number : Nat} {m' : Node}
      (hm : m' ∈ Edit.rescope id scope number others) :
      ∃ m ∈ others, m.id = m'.id ∧ m.kind = m'.kind ∧ m.payload = m'.payload := by
    rcases mem_rescope.mp hm with ⟨hkept, -⟩ | ⟨m, hkept, -, rfl⟩
    · exact ⟨m', hkept, rfl, rfl, rfl⟩
    · exact ⟨m, hkept, rfl, rfl, rfl⟩
  rw [EdgePlan.nodes] at h
  cases hnone : plan.orphan with
  | none =>
    rw [hnone] at h
    exact hmoved h
  | some orphan =>
    rw [hnone] at h
    obtain ⟨m, hm, hid, hkind, hpayload⟩ := hmoved h
    obtain ⟨n, hn, hid', hkind', hpayload'⟩ := hmoved hm
    exact ⟨n, hn, hid'.trans hid, hkind'.trans hkind, hpayload'.trans hpayload⟩

/-- The target of a plan has the planned scope. -/
theorem scope_of_mem_nodes (horphan : ∀ orphan, plan.orphan = some orphan →
    orphan.id ≠ plan.target.id) {counter : Counter} {n : Node}
    (h : n ∈ plan.nodes counter nodes) (hid : n.id = plan.target.id) : n.scope = plan.scope := by
  have hplaced (hn : n ∈ Edit.rescope plan.target.id plan.scope counter.number nodes) :
      n.scope = plan.scope := by
    rcases mem_rescope.mp hn with ⟨-, hne⟩ | ⟨t, -, -, rfl⟩
    · exact absurd hid hne
    · rfl
  rw [EdgePlan.nodes] at h
  cases hnone : plan.orphan with
  | none =>
    rw [hnone] at h
    exact hplaced h
  | some orphan =>
    rw [hnone] at h
    rcases mem_rescope.mp h with ⟨hn, -⟩ | ⟨t, -, htid, rfl⟩
    · exact hplaced hn
    · exact absurd (htid.symm.trans hid) (horphan orphan hnone)

/-- **A new edge is in step**: its target has come to the scope that the route
of the edge says. -/
theorem follows (hd : DistinctIds g.nodes) {replacing : Option String} (counter : Counter)
    (hplan : ofEdge registry g replacing edge = .ok plan)
    (horphan : ∀ orphan, plan.orphan = some orphan → orphan.id ≠ plan.target.id) :
    edge.Follows registry (plan.nodes counter g.nodes) := by
  obtain ⟨source, kind, route, hsource, htarget, hkind, -, hroute, hscope, -⟩ :=
    ofEdge_eq_ok_iff.mp hplan
  obtain ⟨hs, hsid⟩ := Graph.mem_of_node? hsource
  obtain ⟨-, htid⟩ := Graph.mem_of_node? htarget
  intro source' hs' hsid' target' ht' htid' kind' route' hkind' hroute'
  obtain ⟨n, hn, hid, hsame, -⟩ := exists_of_mem_nodes hs'
  obtain rfl : n = source := hd.eq hn hs (hid.trans (hsid'.trans hsid.symm))
  -- the kind and the route are those that were asked for the plan
  obtain rfl : kind = kind' := Option.some.inj (hkind.symm.trans (hsame ▸ hkind'))
  obtain rfl : route = route' := Except.ok.inj (hroute.symm.trans hroute')
  have hplaced := scope_of_mem_nodes horphan ht' (htid'.trans htid.symm)
  rw [hscope] at hplaced
  cases route with
  | slot slot => exact hplaced.trans (by rw [Edit.scopeOf, hid])
  | root => exact hplaced
  | sibling => trivial

end EdgePlan

/-! ## Changes -/

namespace Graph.InStep

/-- Two edges into one node are one edge. -/
theorem edge_eq (h : g.InStep registry) {e' : Edge} (he : e ∈ g.edges) (he' : e' ∈ g.edges)
    (htarget : e.target = e'.target) : e = e' :=
  List.inj_on_of_nodup_map h.targets he he' htarget

/-- Fewer edges, each still in step, are in step. -/
theorem sublist (h : g.InStep registry) {g' : Graph} (hedges : g'.edges.Sublist g.edges)
    (hfollows : ∀ e ∈ g'.edges, e.Follows registry g.nodes → e.Follows registry g'.nodes) :
    g'.InStep registry where
  targets := h.targets.sublist (hedges.map Edge.target)
  follows e he := hfollows e he (h.follows e (hedges.subset he))

/-- The node that falls back is the target of the edge that is replaced, and of
no other. -/
theorem ne_orphan (h : g.InStep registry) {replacing : Option String}
    (hplan : EdgePlan.ofEdge registry g replacing edge = .ok plan) {orphan : Node}
    (horphan : plan.orphan = some orphan) (he : e ∈ g.edges) (hkept : some e.id ≠ replacing) :
    e.target ≠ orphan.id := by
  intro heid
  have hfallen := EdgePlan.map_id_orphan hplan
  rw [horphan, Option.map_some] at hfallen
  obtain ⟨old, hold, htarget⟩ := Option.bind_eq_some_iff.mp hfallen.symm
  obtain ⟨id, rfl, hedge⟩ := Option.bind_eq_some_iff.mp hold
  obtain ⟨hmem, hid⟩ := mem_of_edge? hedge
  split at htarget
  · cases htarget
  · exact hkept (by rw [h.edge_eq he hmem (heid.trans (Option.some.inj htarget).symm), hid])

/-- **Putting an edge in place** keeps edges in step. -/
theorem planned (h : g.InStep registry) (hd : DistinctIds g.nodes) {replacing : Option String}
    (counter : Counter) (hplan : EdgePlan.ofEdge registry g replacing edge = .ok plan) :
    (plan.graph replacing edge counter g).InStep registry := by
  obtain ⟨-, htid⟩ := EdgePlan.target_mem hplan
  constructor
  · rw [EdgePlan.graph, List.map_append, List.map_singleton, ← List.concat_eq_append]
    refine (h.targets.sublist (List.filter_sublist.map Edge.target)).concat fun hmem => ?_
    obtain ⟨e, he, hsame⟩ := List.mem_map.mp hmem
    obtain ⟨-, hkept⟩ := List.mem_filter.mp he
    simp [hsame, htid] at hkept
  · intro e he
    rcases List.mem_append.mp he with he | he
    · obtain ⟨he, hkept⟩ := List.mem_filter.mp he
      obtain ⟨hother, hne⟩ : some e.id ≠ replacing ∧ e.target ≠ plan.target.id := by
        simpa using hkept
      exact (h.follows e he).planned hne
        (fun orphan ho => h.ne_orphan hplan ho he hother) counter
    · rw [List.mem_singleton.mp he]
      exact EdgePlan.follows hd counter hplan fun orphan ho =>
        (EdgePlan.mem_of_orphan hplan ho).2

end Graph.InStep

/-- **Every change keeps edges in step with scopes.** -/
theorem Change.inStep {answer : Except EditError (Option String)}
    (h : Change store answer after) (hsound : store.Sound)
    (hstep : store.graph.InStep store.registry) : after.graph.InStep store.registry := by
  have hd := hsound.graph.nested.distinct
  cases h with
  | refused => exact hstep
  | @added kind payload scope output =>
    have hnodes : ((store.withNode kind payload scope).withOutput output
        (store.newNode kind payload scope).id).graph.nodes =
          store.graph.nodes ++ [store.newNode kind payload scope] := by
      cases output <;> rfl
    have hedges : ((store.withNode kind payload scope).withOutput output
        (store.newNode kind payload scope).id).graph.edges = store.graph.edges := by
      cases output <;> rfl
    refine hstep.sublist (hedges ▸ .refl _) fun e he hfollows => ?_
    rw [hedges] at he
    obtain ⟨hsource, htarget⟩ := hsound.graph.ends e he
    -- the id of the new node is new, so the node is at no end of an edge
    have hold {n : Node} (hn : n ∈ store.graph.nodes ++ [store.newNode kind payload scope])
        (hend : n.id ∈ store.graph.nodes.map Node.id) : n ∈ store.graph.nodes := by
      rcases List.mem_append.mp hn with hn | hn
      · exact hn
      · rw [List.mem_singleton.mp hn] at hend
        exact absurd (List.mem_append_left _ hend) IdSource.next_not_mem
    rw [hnodes]
    exact hfollows.mono (fun n hn hid => ⟨n, hold hn (hid ▸ hsource), rfl, rfl⟩)
      fun n hn hid => ⟨n, hold hn (hid ▸ htarget), rfl, rfl⟩
  | removed =>
    exact hstep.sublist List.filter_sublist fun e _ hfollows =>
      hfollows.subset List.filter_sublist.subset
  | @redrawn node id position =>
    have hsame : ∀ n' ∈ (store.graph.moved id position).nodes,
        ∃ n ∈ store.graph.nodes, n.id = n'.id ∧ n.kind = n'.kind ∧ n.scope = n'.scope := by
      intro n' hn'
      obtain ⟨n, hn, rfl⟩ := List.mem_map.mp hn'
      refine ⟨n, hn, ?_⟩
      split <;> exact ⟨rfl, rfl, rfl⟩
    refine hstep.sublist (.refl _) fun e _ hfollows => hfollows.mono ?_ ?_
    · intro n' hn' _
      obtain ⟨n, hn, hid, hkind, -⟩ := hsame n' hn'
      exact ⟨n, hn, hid, hkind⟩
    · intro n' hn' _
      obtain ⟨n, hn, hid, -, hscope⟩ := hsame n' hn'
      exact ⟨n, hn, hid, hscope⟩
  | @connected edge plan ids hid hplan => exact hstep.planned hd store.nextSequence hplan
  | @reconnected old edge plan hold hplan => exact hstep.planned hd store.nextSequence hplan
  | @disconnected edge target id hedge =>
    obtain ⟨hmem, hid⟩ := Graph.mem_of_edge? hedge
    refine hstep.sublist List.filter_sublist fun e he hfollows => ?_
    obtain ⟨he, hkept⟩ := List.mem_filter.mp he
    -- another edge into the node that moves would be the one that goes away
    refine hfollows.rescope (fun htarget => ?_) _ _
    rw [hstep.edge_eq he hmem htarget, hid] at hkept
    simp at hkept
  | variableRegistered | assistantRegistered => exact ⟨hstep.targets, hstep.follows⟩

/-! ## Runs -/

/-- **A run keeps edges in step with scopes.** -/
theorem inStep_performAll (hreg : registry.OnlyBuiltins)
    (h : (store.Sound ∧ store.registry = registry) ∧ store.graph.InStep registry)
    (operations : List Operation) :
    ((store.performAll operations).2.Sound ∧ (store.performAll operations).2.registry = registry) ∧
      (store.performAll operations).2.graph.InStep registry := by
  refine performAll_induction
    (P := fun s => (s.Sound ∧ s.registry = registry) ∧ s.graph.InStep registry) ?_ h operations
  rintro s operation ⟨⟨hs, rfl⟩, hstep⟩
  have hchange := perform_change s operation
  exact ⟨⟨hs.perform hreg operation, hchange.registry_eq⟩, hchange.inStep hs hstep⟩

/-- An empty graph has no edges. -/
theorem Graph.inStep_empty : Graph.empty.InStep registry :=
  ⟨List.nodup_nil, nofun⟩

/-- **Edges stay in step with scopes** over every run from an empty store: a
node is the target of one edge at most, and the target of an edge is in the
slot of its source, or at the top level, where the kind of the source sends
it. -/
theorem inStep_of_run (aliases : List (String × String)) (ids : IdSource)
    (operations : List Operation) :
    let g := ((Store.empty (Registry.builtin.withAliases aliases) ids).performAll
      operations).2.graph
    (g.edges.map Edge.target).Nodup ∧
      ∀ e ∈ g.edges, ∃ source ∈ g.nodes, ∃ target ∈ g.nodes,
        source.id = e.source ∧ target.id = e.target ∧
        ∀ kind, (Registry.builtin.withAliases aliases).get? source.kind = some kind →
          (∀ slot, kind.route e.handle = .ok (.slot slot) →
            target.scope = some ⟨source.id, slot⟩) ∧
          (kind.route e.handle = .ok .root → target.scope = none) := by
  intro g
  have hreg := Registry.onlyBuiltins_withAliases aliases
  have hsound : (Store.empty (Registry.builtin.withAliases aliases) ids).Sound := Store.sound_empty
  obtain ⟨⟨hsound, -⟩, hstep⟩ :=
    inStep_performAll hreg ⟨⟨hsound, rfl⟩, Graph.inStep_empty⟩ operations
  refine ⟨hstep.targets, fun e he => ?_⟩
  obtain ⟨hsource, htarget⟩ := hsound.graph.ends e he
  obtain ⟨source, hs, hsid⟩ := List.mem_map.mp hsource
  obtain ⟨target, ht, htid⟩ := List.mem_map.mp htarget
  have hfollows := hstep.follows e he source hs hsid target ht htid
  exact ⟨source, hs, target, ht, hsid, htid, fun kind hkind =>
    ⟨fun slot => hfollows kind (.slot slot) hkind, hfollows kind .root hkind⟩⟩

end StepGraph
