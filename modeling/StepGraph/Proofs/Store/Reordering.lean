import StepGraph.Proofs.Store.Reachable

/-!
# What drawing an edge reorders

Putting an edge in place moves its target, and when the edge had another
target before, that one falls back to the top level. A node that moves is
missing where it was. It takes a sequence number that no node has reached, as
long as the counter does not go round, so then it comes last among the children
of its new place (`children_rescope`). A plan is one such move or two in a row
(`EdgePlan.children_nodes`). From this follows all that an edge that is put in
place does to nodes, to edges and to the children of places that get no node
(`Graph.Drawn`), and in which order others get theirs (`Graph.ComeLast`).
-/

namespace StepGraph

variable {registry : Registry} {store : Store} {g : Graph} {nodes : List Node} {t n : Node}
variable {scope : Option Scope} {sequence : Nat} {counter : Counter} {plan : EdgePlan}
variable {edge : Edge} {replacing : Option String}

/-! ## One move -/

/-- **A move to the end.** With a number that no node has reached, a node
comes last among the children of its new place, and all others stay in
order, whatever its number is. -/
theorem children_rescope (hd : DistinctIds nodes) (ht : t ∈ nodes)
    (place : Option Scope) (hlast : place = scope → ∀ n ∈ nodes, n.sequence < sequence) :
    (Containment.mk (Edit.rescope t.id scope sequence nodes)).children place =
      ((Containment.mk nodes).children place).filter (·.id ≠ t.id) ++
        [{ t with scope, sequence }].filter (·.scope = place) := by
  refine Containment.children_eq_of_sorted (hd.rescope _ _ _) ?_ fun n => ?_
  · -- all that stay have lower numbers than the one that comes
    refine List.pairwise_append.mpr ⟨(Containment.children_sorted hd).filter _,
      (List.pairwise_singleton _ _).filter _, fun a ha b hb => ?_⟩
    have ha := (Containment.mem_children.mp (List.mem_of_mem_filter ha)).1
    obtain ⟨hb, hplace⟩ := List.mem_filter.mp hb
    rw [List.mem_singleton.mp hb] at hplace ⊢
    exact precedes_iff.mpr (.inl (hlast (of_decide_eq_true hplace).symm a ha))
  · simp only [mem_rescope, List.mem_append, List.mem_filter, Containment.mem_children,
      List.mem_singleton, decide_eq_true_eq]
    constructor
    · rintro (⟨⟨hn, hplace⟩, hid⟩ | ⟨rfl, hplace⟩)
      · exact ⟨.inl ⟨hn, hid⟩, hplace⟩
      · exact ⟨.inr ⟨t, ht, rfl, rfl⟩, hplace⟩
    · rintro ⟨⟨hn, hid⟩ | ⟨t', ht', hid, rfl⟩, hplace⟩
      · exact .inl ⟨⟨hn, hplace⟩, hid⟩
      · rw [hd.eq ht' ht hid] at hplace ⊢
        exact .inr ⟨rfl, hplace⟩

/-! ## The moves of a plan -/

namespace EdgePlan

/-- The target where it has come to. -/
def placed (plan : EdgePlan) (counter : Counter) : Node :=
  { plan.target with scope := plan.scope, sequence := counter.number }

/-- The node that has fallen back to the top level, behind the target. -/
def released (plan : EdgePlan) (counter : Counter) : Option Node :=
  plan.orphan.map fun node => { node with scope := none, sequence := counter.next.number }

/-- All nodes that a plan moves, as they are afterwards. -/
def moved (plan : EdgePlan) (counter : Counter) : List Node :=
  plan.placed counter :: (plan.released counter).toList

/-- What falls back keeps its id. -/
theorem map_id_released (plan : EdgePlan) (counter : Counter) :
    (plan.released counter).map Node.id = plan.orphan.map Node.id := by
  rw [released, Option.map_map]
  rfl

/-- What there is once the target has come to its place is there at the end,
unless it falls back. -/
theorem mem_nodes_of_mem_rescope
    (h : n ∈ Edit.rescope plan.target.id plan.scope counter.number nodes)
    (horphan : ∀ orphan, plan.orphan = some orphan → n.id ≠ orphan.id) :
    n ∈ plan.nodes counter nodes := by
  unfold EdgePlan.nodes
  split
  · exact h
  · rename_i orphan hsome
    exact mem_rescope.mpr (.inl ⟨h, horphan orphan hsome⟩)

/-- A node that a plan does not move stays as it is. -/
theorem mem_nodes_of_ne (hn : n ∈ nodes) (hne : n.id ≠ plan.target.id)
    (horphan : ∀ orphan, plan.orphan = some orphan → n.id ≠ orphan.id) :
    n ∈ plan.nodes counter nodes :=
  mem_nodes_of_mem_rescope (mem_rescope.mpr (.inl ⟨hn, hne⟩)) horphan

/-- The target of a plan is where it has come to. -/
theorem placed_mem_nodes (ht : plan.target ∈ nodes)
    (horphan : ∀ orphan, plan.orphan = some orphan → plan.target.id ≠ orphan.id) :
    plan.placed counter ∈ plan.nodes counter nodes :=
  mem_nodes_of_mem_rescope (mem_rescope.mpr (.inr ⟨plan.target, ht, rfl, rfl⟩)) horphan

/-- So is the node that falls back. -/
theorem released_mem_nodes (ht : plan.orphan = some n) (hn : n ∈ nodes)
    (hne : n.id ≠ plan.target.id) :
    { n with scope := none, sequence := counter.next.number } ∈ plan.nodes counter nodes := by
  unfold EdgePlan.nodes
  rw [ht]
  exact mem_rescope.mpr (.inr ⟨n, mem_rescope.mpr (.inl ⟨hn, hne⟩), rfl, rfl⟩)

/-- **A plan moves its nodes to the end**, the target before the node that
falls back, where the counter does not go round. At a place that gets no node it
does not matter. -/
theorem children_nodes (hd : DistinctIds g.nodes)
    (hplan : ofEdge registry g replacing edge = .ok plan)
    (place : Option Scope)
    (hexact : place = plan.scope ∨ place = none ∧ plan.orphan ≠ none →
      (plan.counter counter).Exact)
    (hlast : counter.Exact → ∀ n ∈ g.nodes, n.sequence < counter.number) :
    (Containment.mk (plan.nodes counter g.nodes)).children place =
      ((Containment.mk g.nodes).children place).filter
          (fun n => n.id ∉ (plan.moved counter).map Node.id) ++
        (plan.moved counter).filter (·.scope = place) := by
  obtain ⟨ht, -⟩ := target_mem hplan
  have hfirst : (Containment.mk
      (Edit.rescope plan.target.id plan.scope counter.number g.nodes)).children place =
        ((Containment.mk g.nodes).children place).filter (·.id ≠ plan.target.id) ++
          [plan.placed counter].filter (·.scope = place) :=
    children_rescope hd ht place fun hscope => hlast (hexact (.inl hscope)).of_plan.of_next
  rw [EdgePlan.nodes, moved, released]
  cases horphan : plan.orphan with
  | none => simpa [placed] using hfirst
  | some node =>
    obtain ⟨hnode, hne⟩ := mem_of_orphan hplan horphan
    -- the first move has left the second node as it was, with a lower number
    have hnode' : node ∈ Edit.rescope plan.target.id plan.scope counter.number g.nodes :=
      mem_rescope.mpr (.inl ⟨hnode, hne⟩)
    have hlast' (htop : place = none) :
        ∀ n ∈ Edit.rescope plan.target.id plan.scope counter.number g.nodes,
          n.sequence < counter.next.number := by
      have hgets : plan.orphan ≠ none := horphan ▸ Option.some_ne_none node
      have hnext := (hexact (.inr ⟨htop, hgets⟩)).of_plan
      exact sequence_lt_of_mem_rescope (hlast hnext.of_next) hnext.number_lt_next.le
        hnext.number_lt_next
    have hstays : ([plan.placed counter].filter (·.scope = place)).filter (·.id ≠ node.id) =
        [plan.placed counter].filter (·.scope = place) :=
      List.filter_eq_self.mpr fun n hn => by
        rw [List.mem_singleton.mp (List.mem_of_mem_filter hn)]
        exact decide_eq_true (Ne.symm hne)
    dsimp only
    rw [children_rescope (hd.rescope _ _ _) hnode' place hlast', hfirst, List.filter_append, hstays,
      List.filter_filter, List.append_assoc, ← List.filter_append]
    refine congrArg (· ++ _) (List.filter_congr fun n _ => ?_)
    simp [placed, and_comm]

/-- Which moved nodes a place gets. -/
theorem filter_moved (plan : EdgePlan) (counter : Counter) (place : Option Scope) :
    (plan.moved counter).filter (·.scope = place) =
      (if place = (plan.placed counter).scope then [plan.placed counter] else []) ++
        if place = none then (plan.released counter).toList else [] := by
  have hplaced : [plan.placed counter].filter (·.scope = place) =
      if place = (plan.placed counter).scope then [plan.placed counter] else [] := by
    simp [List.filter_cons, eq_comm]
  have hreleased : (plan.released counter).toList.filter (·.scope = place) =
      if place = none then (plan.released counter).toList else [] := by
    rw [released]
    cases plan.orphan <;> simp [List.filter_cons, eq_comm]
  rw [moved, ← List.singleton_append, List.filter_append, hplaced, hreleased]

/-- A plan changes no node but for its place, and only the nodes that it
moves. -/
theorem forall₂_nodes (plan : EdgePlan) (counter : Counter) (nodes : List Node)
    (hd : DistinctIds nodes) (ht : plan.target ∈ nodes)
    (horphan : ∀ node, plan.orphan = some node → node ∈ nodes ∧ node.id ≠ plan.target.id) :
    List.Forall₂ (fun n n' => n' = { n with scope := n'.scope, sequence := n'.sequence } ∧
      (n' = n ∨ n' ∈ plan.moved counter)) nodes (plan.nodes counter nodes) := by
  rw [EdgePlan.nodes, moved, released]
  cases hnone : plan.orphan with
  | none =>
    rw [Edit.rescope, List.forall₂_map_right_iff, List.forall₂_same]
    intro n hn
    split
    · rename_i hid
      obtain rfl := hd.eq hn ht hid
      exact ⟨rfl, .inr List.mem_cons_self⟩
    · exact ⟨rfl, .inl rfl⟩
  | some node =>
    obtain ⟨hnode, hne⟩ := horphan node hnone
    dsimp only
    rw [Edit.rescope, Edit.rescope, List.map_map, List.forall₂_map_right_iff, List.forall₂_same]
    intro n hn
    rw [Function.comp_apply]
    by_cases hid : n.id = plan.target.id
    · obtain rfl := hd.eq hn ht hid
      rw [if_pos rfl, if_neg (Ne.symm hne)]
      exact ⟨rfl, .inr List.mem_cons_self⟩
    · rw [if_neg hid]
      split
      · rename_i hid
        obtain rfl := hd.eq hn hnode hid
        exact ⟨rfl, .inr (List.mem_cons_of_mem _ List.mem_cons_self)⟩
      · exact ⟨rfl, .inl rfl⟩

end EdgePlan

/-! ## Edges that are put in place -/

namespace Graph

/-- The children of a place but for some nodes. -/
def childrenBut (g : Graph) (moved : List Node) (place : Option Scope) : List Node :=
  (g.children place).filter fun n => n.id ∉ moved.map Node.id

/-- **What putting an edge in place does to a graph.** `target` is the
edge's target as it is afterwards, and `released` a node that falls back to
the top level. -/
structure Drawn (registry : Registry) (g after : Graph) (replacing : Option String) (edge : Edge)
    (target : Node) (released : Option Node) : Prop where
  target_id : target.id = edge.target
  /-- The target goes where the kind of the source sends the handle. What comes
  next to a source that falls back goes to the top level with it. -/
  routed : ∃ source ∈ g.nodes, source.id = edge.source ∧
    ∃ kind route, registry.get? source.kind = some kind ∧ kind.route edge.handle = .ok route ∧
      target.scope = Edit.scopeOf route source released
  /-- All places but those that the two come to only lose nodes. -/
  elsewhere : ∀ place, (place = none → released = none) → place ≠ target.scope →
    after.children place = g.childrenBut (target :: released.toList) place
  /-- Only these two change, and they change nothing but their places. -/
  nodes : List.Forall₂ (fun n n' =>
    n' = { n with scope := n'.scope, sequence := n'.sequence } ∧
      (n' = n ∨ n' ∈ target :: released.toList)) g.nodes after.nodes
  /-- The replaced edge and all other edges into the target are gone, and the
  edge comes last. -/
  edges : after.edges =
    (g.edges.filter fun e => some e.id ≠ replacing ∧ e.target ≠ edge.target) ++ [edge]

/-- **Moved nodes come last**, in the graph afterwards. -/
structure ComeLast (g after : Graph) (target : Node) (released : Option Node) : Prop where
  /-- The target comes behind all others in its place, and at the top level
  before the released node. -/
  place : after.children target.scope =
    g.childrenBut (target :: released.toList) target.scope ++
      target :: if target.scope = none then released.toList else []
  /-- The released node comes behind all others at the top level. -/
  top : target.scope ≠ none → after.children none =
    g.childrenBut (target :: released.toList) none ++ released.toList

/-- The place of the target, where the source and its kind are known. -/
theorem Drawn.scope_eq {after : Graph} {target source : Node} {released : Option Node}
    {kind : Kind} {route : Route} (h : g.Drawn registry after replacing edge target released)
    (hd : DistinctIds g.nodes) (hs : source ∈ g.nodes) (hid : source.id = edge.source)
    (hkind : registry.get? source.kind = some kind) (hroute : kind.route edge.handle = .ok route) :
    target.scope = Edit.scopeOf route source released := by
  obtain ⟨source', hs', hid', kind', route', hkind', hroute', hscope⟩ := h.routed
  obtain rfl : source' = source := hd.eq hs' hs (hid'.trans hid.symm)
  obtain rfl : kind = kind' := Option.some.inj (hkind.symm.trans hkind')
  obtain rfl : route = route' := Except.ok.inj (hroute.symm.trans hroute')
  exact hscope

/-- The children of a place after a plan. -/
theorem children_plan (h : store.Consistent)
    (hplan : EdgePlan.ofEdge registry store.graph replacing edge = .ok plan) (place : Option Scope)
    (hexact : place = plan.scope ∨ place = none ∧ plan.orphan ≠ none →
      (plan.counter store.nextSequence).Exact) :
    (plan.graph replacing edge store.nextSequence store.graph).children place =
      store.graph.childrenBut (plan.moved store.nextSequence) place ++
        ((if place = (plan.placed store.nextSequence).scope then
            [plan.placed store.nextSequence] else []) ++
          if place = none then (plan.released store.nextSequence).toList else []) := by
  rw [← EdgePlan.filter_moved]
  exact EdgePlan.children_nodes h.graph.rooted.distinct hplan place hexact h.sequences

/-- A planned edge is put in place. -/
theorem drawn_plan (h : store.Consistent)
    (hplan : EdgePlan.ofEdge registry store.graph replacing edge = .ok plan) :
    store.graph.Drawn registry (plan.graph replacing edge store.nextSequence store.graph) replacing
      edge (plan.placed store.nextSequence) (plan.released store.nextSequence) := by
  obtain ⟨ht, htid⟩ := EdgePlan.target_mem hplan
  constructor
  · exact htid
  · obtain ⟨source, kind, route, hsource, -, hkind, -, hroute, hscope, -⟩ :=
      EdgePlan.ofEdge_eq_ok_iff.mp hplan
    obtain ⟨hs, hid⟩ := mem_of_node? hsource
    refine ⟨source, hs, hid, kind, route, hkind, hroute, hscope.trans ?_⟩
    cases route with
    | sibling => simp only [Edit.scopeOf, EdgePlan.map_id_released]
    | slot slot => rfl
    | root => rfl
  · intro place htop hscope
    have hgets : ¬ (place = plan.scope ∨ place = none ∧ plan.orphan ≠ none) := by
      rintro (hplaced | ⟨hnone, horphan⟩)
      · exact hscope hplaced
      · exact horphan (Option.map_eq_none_iff.mp (htop hnone))
    have hback : (if place = none then (plan.released store.nextSequence).toList else []) = [] := by
      split
      · rename_i hnone
        rw [htop hnone, Option.toList_none]
      · rfl
    rw [children_plan h hplan place fun hget => absurd hget hgets, if_neg hscope, hback,
      List.append_nil, List.append_nil]
    rfl
  · exact EdgePlan.forall₂_nodes plan _ _ h.graph.rooted.distinct ht fun _ =>
      EdgePlan.mem_of_orphan hplan
  · rw [EdgePlan.graph, htid]
    refine congrArg (· ++ _) (List.filter_congr fun e _ => ?_)
    rw [Bool.eq_iff_iff]
    simp

/-- The nodes of a plan come last, as long as the counter does not go round. -/
theorem comeLast_plan (h : store.Consistent)
    (hplan : EdgePlan.ofEdge registry store.graph replacing edge = .ok plan)
    (hexact : (plan.counter store.nextSequence).Exact) :
    store.graph.ComeLast (plan.graph replacing edge store.nextSequence store.graph)
      (plan.placed store.nextSequence) (plan.released store.nextSequence) := by
  constructor
  · rw [children_plan h hplan _ fun _ => hexact, if_pos rfl]
    rfl
  · intro hscope
    rw [children_plan h hplan _ fun _ => hexact, if_neg (Ne.symm hscope), if_pos rfl,
      List.nil_append]
    rfl

end Graph

end StepGraph
