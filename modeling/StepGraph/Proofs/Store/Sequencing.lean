import StepGraph.Proofs.Script.InOrder
import StepGraph.Proofs.Store.Reordering

/-!
# Edges to siblings

An edge may lead next to its source, into whatever scope the source is in. Its
target then comes behind the source there, and in scripts (`Graph.Sequenced`),
unless the edge has been taken away from the source itself: the node that falls
back to the top level comes behind the target, so then the two stand the other
way round (`sequenced_iff_of_draws`).
-/

namespace StepGraph

variable {registry : Registry} {store after : Store} {g : Graph} {operation : Operation}
variable {edge : Edge} {released : Option String} {answer : Option String} {first second : String}

/-! ## One after the other -/

/-- A node of the graph is in a place. -/
def Graph.LiesIn (g : Graph) (id : String) (place : Option Scope) : Prop :=
  ∃ n ∈ g.nodes, n.id = id ∧ n.scope = place

/-- A node is in one place. -/
theorem Graph.LiesIn.unique {id : String} {place other : Option Scope} (hd : DistinctIds g.nodes)
    (h : g.LiesIn id place) (h' : g.LiesIn id other) : place = other := by
  obtain ⟨m, hm, hid, rfl⟩ := h
  obtain ⟨n, hn, hid', rfl⟩ := h'
  rw [hd.eq hm hn (hid.trans hid'.symm)]

/-- The nodes of a script as they are done with. -/
def Script.order (script : Script) : List String :=
  script.visits.map fun visit => visit.node.id

/-- **Two nodes in sequence.** -/
structure Graph.Sequenced (registry : Registry) (g : Graph) (first second : String) : Prop where
  /-- They are in one place. -/
  siblings : ∃ place, g.LiesIn first place ∧ g.LiesIn second place
  /-- The first comes before the second there. -/
  ordered : ∃ place s t, s.id = first ∧ t.id = second ∧ [s, t].Sublist (g.children place)
  /-- A script with the first has the second behind it. -/
  emitted : ∀ comments script, g.compile registry comments = .ok script → first ∈ script.order →
    [first, second].Sublist script.order

namespace Graph.Sequenced

/-- **The order of siblings** is all that it takes. -/
theorem of_children (hd : DistinctIds g.nodes) {s t : Node} {place : Option Scope}
    (h : [s, t].Sublist (g.children place)) : g.Sequenced registry s.id t.id := by
  obtain ⟨hs, hplace⟩ := Containment.mem_children.mp (h.subset List.mem_cons_self)
  obtain ⟨ht, hplace'⟩ :=
    Containment.mem_children.mp (h.subset (List.mem_cons_of_mem _ List.mem_cons_self))
  refine ⟨⟨place, ⟨s, hs, rfl, hplace⟩, ⟨t, ht, rfl, hplace'⟩⟩, ⟨place, s, t, rfl, rfl, h⟩, ?_⟩
  intro comments script hcompile hfirst
  have horder : script.order = (script.visits.map Visit.node).map Node.id := by
    rw [List.map_map]
    rfl
  rw [horder] at hfirst ⊢
  obtain ⟨n, hn, hid⟩ := List.mem_map.mp hfirst
  obtain rfl : n = s := hd.eq (Graph.mem_of_mem_visits hcompile hn) hs hid
  exact (Graph.passes_in_order h hcompile hn).map Node.id

/-- No two nodes are in sequence both ways. -/
theorem asymm (hd : DistinctIds g.nodes) (h : g.Sequenced registry first second) :
    ¬ g.Sequenced registry second first := by
  intro h'
  obtain ⟨place, s, t, rfl, rfl, hpair⟩ := h.ordered
  obtain ⟨place', t', s', ht, hs, hpair'⟩ := h'.ordered
  have hmem {n : Node} {place : Option Scope} {l : List Node} (hl : l.Sublist (g.children place))
      (hn : n ∈ l) : n ∈ g.nodes := (Containment.mem_children.mp (hl.subset hn)).1
  obtain rfl : t' = t := hd.eq (hmem hpair' (by simp)) (hmem hpair (by simp)) ht
  obtain rfl : s' = s := hd.eq (hmem hpair' (by simp)) (hmem hpair (by simp)) hs
  have hprecedes {a b : Node} {place : Option Scope} (hab : [a, b].Sublist (g.children place)) :
      a.precedes b = true :=
    (List.pairwise_cons.mp ((Containment.children_sorted hd).sublist hab)).1 b
      List.mem_cons_self
  exact not_precedes_of_precedes (hprecedes hpair) (hprecedes hpair')

end Graph.Sequenced

/-! ## Edges that are put in place -/

namespace Graph.ComeLast

variable {g' : Graph} {target : Node} {fallen : Option Node}

/-- A node that stays in the place of the target comes before the target. -/
theorem sequenced (h : g.ComeLast g' target fallen) (hd : DistinctIds g'.nodes)
    {s : Node} (hs : s ∈ g.nodes) (hscope : s.scope = target.scope) (hne : s.id ≠ target.id)
    (hstays : fallen.map Node.id ≠ some s.id) : g'.Sequenced registry s.id target.id := by
  have hmem : s ∈ g.childrenBut (target :: fallen.toList) target.scope := by
    refine List.mem_filter.mpr ⟨Containment.mem_children.mpr ⟨hs, hscope⟩, decide_eq_true ?_⟩
    rw [List.map_cons, List.mem_cons, not_or]
    refine ⟨hne, fun hid => hstays ?_⟩
    simpa using hid
  have hpair : [s, target].Sublist (g'.children target.scope) := by
    rw [h.place]
    exact (List.singleton_sublist.mpr hmem).append (List.singleton_sublist.mpr List.mem_cons_self)
  exact .of_children hd hpair

/-- At the top level the target comes before the node that falls back. -/
theorem sequenced_fallen {r : Node} (h : g.ComeLast g' target (some r))
    (hd : DistinctIds g'.nodes) (hscope : target.scope = none) :
    g'.Sequenced registry target.id r.id := by
  have hpair : [target, r].Sublist (g'.children target.scope) := by
    rw [h.place, if_pos hscope]
    exact List.sublist_append_right _ _
  exact .of_children hd hpair

end Graph.ComeLast

/-- **An edge leads next to its source.** -/
def Graph.LeadsBeside (registry : Registry) (g : Graph) (edge : Edge) : Prop :=
  ∃ s ∈ g.nodes, s.id = edge.source ∧
    ∃ kind, registry.get? s.kind = some kind ∧ kind.route edge.handle = .ok .sibling

/-- A plan for such an edge: the target comes to where the source is, or to the
top level where the source falls back. -/
theorem EdgePlan.scope_eq_of_leadsBeside {plan : EdgePlan} {replacing : Option String}
    (hd : DistinctIds g.nodes) (hplan : ofEdge registry g replacing edge = .ok plan)
    (h : g.LeadsBeside registry edge) :
    ∃ s ∈ g.nodes, s.id = edge.source ∧
      plan.scope = if plan.orphan.map Node.id = some s.id then none else s.scope := by
  obtain ⟨s, hs, hid, kind, hkind, hroute⟩ := h
  obtain ⟨s', kind', route, hsource, -, hkind', -, hroute', hscope, -⟩ := ofEdge_eq_ok_iff.mp hplan
  obtain ⟨hs', hid'⟩ := Graph.mem_of_node? hsource
  obtain rfl : s' = s := hd.eq hs' hs (hid'.trans hid.symm)
  obtain rfl : kind = kind' := Option.some.inj (hkind.symm.trans hkind')
  obtain rfl : Route.sibling = route := Except.ok.inj (hroute.symm.trans hroute')
  exact ⟨s', hs', hid, hscope⟩

/-- **The ends of a planned edge to a sibling** come to one place. -/
theorem Graph.exists_place_of_plan {plan : EdgePlan} {replacing : Option String}
    (h : g.Consistent) (hplan : EdgePlan.ofEdge registry g replacing edge = .ok plan)
    (hbeside : g.LeadsBeside registry edge) (hne : edge.source ≠ edge.target) (counter : Counter) :
    ∃ place, (plan.graph replacing edge counter g).LiesIn edge.source place ∧
      (plan.graph replacing edge counter g).LiesIn edge.target place := by
  obtain ⟨s, hs, hid, hscope⟩ := EdgePlan.scope_eq_of_leadsBeside h.rooted.distinct hplan hbeside
  obtain ⟨ht, htid⟩ := EdgePlan.target_mem hplan
  have htarget : (plan.graph replacing edge counter g).LiesIn edge.target plan.scope :=
    ⟨plan.placed counter, EdgePlan.placed_mem_nodes ht fun orphan horphan =>
      (EdgePlan.mem_of_orphan hplan horphan).2.symm, htid, rfl⟩
  refine ⟨plan.scope, ?_, htarget⟩
  rw [← hid, ← htid] at hne
  rw [hscope, ← hid]
  split
  · rename_i hfalls
    obtain ⟨orphan, horphan, hoid⟩ := Option.map_eq_some_iff.mp hfalls
    obtain ⟨hmem, hother⟩ := EdgePlan.mem_of_orphan hplan horphan
    exact ⟨_, EdgePlan.released_mem_nodes horphan hmem hother, hoid, rfl⟩
  · rename_i hstays
    refine ⟨s, EdgePlan.mem_nodes_of_ne hs hne fun orphan horphan hoid => hstays ?_, rfl, rfl⟩
    rw [horphan, hoid]
    rfl

/-- **A planned edge to a sibling** brings its target behind its source, unless
the source falls back and comes behind the target. -/
theorem Graph.sequenced_plan {plan : EdgePlan} {replacing : Option String} (h : store.Consistent)
    (hplan : EdgePlan.ofEdge store.registry store.graph replacing edge = .ok plan)
    (hexact : (plan.counter store.nextSequence).Exact)
    (hbeside : store.graph.LeadsBeside store.registry edge) (hne : edge.source ≠ edge.target) :
    let after := plan.graph replacing edge store.nextSequence store.graph
    if plan.orphan.map Node.id = some edge.source
      then after.Sequenced store.registry edge.target edge.source
      else after.Sequenced store.registry edge.source edge.target := by
  intro after
  have hlast := Graph.comeLast_plan h hplan hexact
  have hd : DistinctIds after.nodes := (h.graph.rooted_plan store.nextSequence hplan).distinct
  obtain ⟨s, hs, hid, hscope⟩ :=
    EdgePlan.scope_eq_of_leadsBeside h.graph.rooted.distinct hplan hbeside
  have hfallen := plan.map_id_released store.nextSequence
  rw [← hfallen] at hscope ⊢
  rw [← hid, ← (Graph.drawn_plan h hplan).target_id] at hne ⊢
  split at hscope
  · rename_i hfalls
    obtain ⟨r, hreleased, hrid⟩ := Option.map_eq_some_iff.mp hfalls
    rw [if_pos hfalls, ← hrid]
    rw [hreleased] at hlast
    exact hlast.sequenced_fallen hd hscope
  · rename_i hstays
    rw [if_neg hstays]
    exact hlast.sequenced hd hs hscope.symm hne hstays

/-! ## Operations -/

/-- **An operation that puts an edge in place**, and the node that it takes an
edge away from. -/
inductive Store.Draws (store : Store) : Operation → Edge → Option String → Prop
  | connect (source target : String) (handle : Handle) :
      store.Draws (.connect source target handle)
        ⟨(store.ids.next "edge" store.graph.usedIds).1, source, target, handle⟩ none
  | reconnect {id : String} {old : Edge} (source target : String) (handle : Handle) :
      store.graph.edge? id = some old →
      store.Draws (.reconnect id source target handle) ⟨id, source, target, handle⟩
        (if old.target = target then none else some old.target)

/-- What is put in place was planned. -/
theorem Store.Draws.exists_plan (h : store.Draws operation edge released)
    (hok : store.perform operation = (.ok answer, after)) :
    ∃ plan replacing, EdgePlan.ofEdge store.registry store.graph replacing edge = .ok plan ∧
      plan.orphan.map Node.id = released ∧
      after.graph = plan.graph replacing edge store.nextSequence store.graph ∧
      after.nextSequence = plan.counter store.nextSequence := by
  cases h with
  | connect source target handle =>
    obtain ⟨id, ids, plan, hdrawn, hplan, rfl, rfl⟩ := perform_connect_eq_ok_iff.mp hok
    rw [hdrawn]
    exact ⟨plan, none, hplan, EdgePlan.map_id_orphan hplan, rfl, rfl⟩
  | @reconnect id old source target handle hold =>
    obtain ⟨-, plan, -, hplan, rfl, rfl⟩ := perform_reconnect_eq_ok_iff.mp hok
    refine ⟨plan, some id, hplan, ?_, rfl, rfl⟩
    rw [EdgePlan.map_id_orphan hplan, Option.bind_some, hold, Option.bind_some]

/-- **Sequencing edges bring their target behind their source, unless they are
taken away from the source.** In every reachable store, whatever the kinds are,
when an edge that leads next to its source is drawn or moved, its two ends come
to one place. As long as the counter stays below `2 ^ 64` they are in sequence
there, the source first; but where the edge had led to its new source before,
the other way round. -/
theorem sequenced_iff_of_draws (h : Reachable registry store)
    (hdraws : store.Draws operation edge released)
    (hbeside : store.graph.LeadsBeside registry edge) (hne : edge.source ≠ edge.target)
    (hok : store.perform operation = (.ok answer, after)) :
    (∃ place, after.graph.LiesIn edge.source place ∧ after.graph.LiesIn edge.target place) ∧
      (after.nextSequence.Exact →
        (after.graph.Sequenced registry edge.source edge.target ↔ released ≠ some edge.source) ∧
          (after.graph.Sequenced registry edge.target edge.source ↔
            released = some edge.source)) := by
  obtain ⟨hstore, rfl⟩ := h.consistent
  obtain ⟨plan, replacing, hplan, rfl, hafter, hcounter⟩ := hdraws.exists_plan hok
  rw [hafter, hcounter]
  refine ⟨Graph.exists_place_of_plan hstore.graph hplan hbeside hne _, fun hexact => ?_⟩
  have hd : DistinctIds (plan.graph replacing edge store.nextSequence store.graph).nodes :=
    (hstore.graph.rooted_plan store.nextSequence hplan).distinct
  have hsequenced := Graph.sequenced_plan hstore hplan hexact hbeside hne
  by_cases hfalls : plan.orphan.map Node.id = some edge.source
  · rw [if_pos hfalls] at hsequenced
    exact ⟨iff_of_false (fun h => h.asymm hd hsequenced) (not_not.mpr hfalls),
      iff_of_true hsequenced hfalls⟩
  · rw [if_neg hfalls] at hsequenced
    exact ⟨iff_of_true hsequenced hfalls,
      iff_of_false (fun h => h.asymm hd hsequenced) hfalls⟩

/-- An action in the body of a group, where an edge has put it, and one at the
top level. -/
def Document.withDetour : Document where
  nodes := [⟨"g", "group", none, 0, .origin, .empty⟩,
    ⟨"a", "action", some "g", 1, .origin, ⟨"", ["first();\n"], .null⟩⟩,
    ⟨"b", "action", none, 2, .origin, ⟨"", ["second();\n"], .null⟩⟩]
  edges := [⟨"e", "g", "a", .primary⟩]
  vars := []
  assistants := []

/-- The store of the document. -/
def Store.withDetour : Store :=
  (Document.withDetour.loaded Registry.builtin ⟨fun _ => 0, 0⟩).store

theorem reachable_withDetour : Reachable Registry.builtin Store.withDetour :=
  have hload : Document.withDetour.load Registry.builtin ⟨fun _ => 0, 0⟩ =
      .ok (Document.withDetour.loaded Registry.builtin ⟨fun _ => 0, 0⟩) := rfl
  ⟨_, [], .loaded hload, rfl⟩

/-- Both edges from the first action to the second lead next to it. -/
theorem leadsBeside_withDetour (id : String) :
    Store.withDetour.graph.LeadsBeside Registry.builtin ⟨id, "a", "b", .primary⟩ :=
  ⟨_, List.mem_cons_of_mem _ List.mem_cons_self, rfl, Builtin.action.kind, rfl, rfl⟩

/-- An edge that is drawn from the first action to the second puts the second
behind the first; the edge that has put the first into the group is moved, and
puts it before. -/
theorem sequenced_iff_of_draws_withDetour :
    (∃ after, Store.withDetour.perform (.connect "a" "b" .primary) =
        (.ok (some "edge_00000000"), after) ∧ after.nextSequence.Exact ∧
        after.graph.Sequenced .builtin "a" "b") ∧
      ∃ after, Store.withDetour.perform (.reconnect "e" "a" "b" .primary) = (.ok none, after) ∧
        after.nextSequence.Exact ∧ after.graph.Sequenced .builtin "b" "a" := by
  constructor
  · have hconnect : Store.withDetour.perform (.connect "a" "b" .primary) =
        (.ok (some "edge_00000000"),
          (Store.withDetour.perform (.connect "a" "b" .primary)).2) := rfl
    have hiff := sequenced_iff_of_draws reachable_withDetour (.connect "a" "b" .primary)
      (leadsBeside_withDetour _) (by decide) hconnect
    exact ⟨_, hconnect, rfl, (hiff.2 rfl).1.mpr nofun⟩
  · have hreconnect : Store.withDetour.perform (.reconnect "e" "a" "b" .primary) =
        (.ok none, (Store.withDetour.perform (.reconnect "e" "a" "b" .primary)).2) := rfl
    have hedge : Store.withDetour.graph.edge? "e" = some ⟨"e", "g", "a", .primary⟩ := rfl
    have hiff := sequenced_iff_of_draws reachable_withDetour (.reconnect "a" "b" .primary hedge)
      (leadsBeside_withDetour _) (by decide) hreconnect
    exact ⟨_, hreconnect, rfl, (hiff.2 rfl).2.mpr rfl⟩

/-- **An edge that is taken away from its new source runs backwards**: the edge
leads from the first action to the second, and the script that has come first
comes last. -/
theorem reconnect_from_old_target_reverses :
    Reachable Registry.builtin Store.withDetour ∧
      Store.withDetour.graph.LeadsBeside Registry.builtin ⟨"e", "a", "b", .primary⟩ ∧
      ∃ after, Store.withDetour.perform (.reconnect "e" "a" "b" .primary) = (.ok none, after) ∧
        after.graph.edges = [⟨"e", "a", "b", .primary⟩] ∧
        ¬ after.graph.Sequenced .builtin "a" "b" ∧
        ∃ script, after.graph.compile .builtin false = .ok script ∧
          script.body = "second();\nfirst();\n" := by
  refine ⟨reachable_withDetour, leadsBeside_withDetour _, _, rfl, rfl, ?_, _, rfl, rfl⟩
  let g : Graph := (Store.withDetour.perform (.reconnect "e" "a" "b" .primary)).2.graph
  have hd : DistinctIds g.nodes := by
    show ["g", "a", "b"].Nodup
    decide
  have hpair : [(⟨"b", "action", none, 3, .origin, ⟨"", ["second();\n"], .null⟩⟩ : Node),
      ⟨"a", "action", none, 4, .origin, ⟨"", ["first();\n"], .null⟩⟩].Sublist
        (g.children none) := List.sublist_append_right [_] _
  exact Graph.Sequenced.asymm hd (.of_children hd hpair)

end StepGraph
