import StepGraph.Proofs.Graph.Climbing
import StepGraph.Proofs.Store.Reordering

/-!
# Circles that a moved edge would make

Moving an edge moves two nodes: its new target comes to its place, and the old
one falls back to the top level. Whether the new target would come to lie inside
itself is asked of the graph as it is before both, so the answer is right unless
the node that falls back stands between the new owner of the target and the
target (`EdgePlan.Cuts`). It takes the owner out of the target then, and the
edge is refused for a circle that would not be there
(`circle_iff_not_cuts_of_refused`).
-/

namespace StepGraph

variable {registry : Registry} {store : Store} {g : Graph} {nodes between rest : List Node}
variable {scope : Option Scope} {counter : Counter} {plan : EdgePlan} {edge : Edge} {n o t : Node}
variable {replacing : Option String}

/-! ## Two moves -/

/-- The moves of two nodes may be made in either order. -/
theorem rescope_comm {id id' : String} (hne : id ≠ id') (scope scope' : Option Scope)
    (sequence sequence' : Nat) :
    Edit.rescope id scope sequence (Edit.rescope id' scope' sequence' nodes) =
      Edit.rescope id' scope' sequence' (Edit.rescope id scope sequence nodes) := by
  unfold Edit.rescope
  rw [List.map_map, List.map_map]
  refine List.map_congr_left fun n _ => ?_
  rw [Function.comp_apply, Function.comp_apply]
  by_cases hid : n.id = id
  · have hid' : n.id ≠ id' := hid.trans_ne hne
    simp only [if_pos hid, if_neg hid']
  · by_cases hid' : n.id = id'
    · simp only [if_pos hid', if_neg hid]
    · simp only [if_neg hid', if_neg hid]

/-- **A chain is cut** at a node that goes to the top level. -/
theorem Chain.cut (hd : DistinctIds nodes) (h : Chain nodes scope (between ++ o :: rest))
    (sequence : Nat) :
    Chain (Edit.rescope o.id none sequence nodes) scope
      (between ++ [{ o with scope := none, sequence }]) := by
  induction between generalizing scope with
  | nil =>
    cases h with
    | up ho hid _ => exact .up (mem_rescope.mpr (.inr ⟨o, ho, rfl, rfl⟩)) hid .top
  | cons a between ih =>
    have hnodup := h.nodup hd
    cases h with
    | up ha hid hrest =>
      refine .up (mem_rescope.mpr (.inl ⟨ha, fun hid => ?_⟩)) hid (ih hrest)
      -- the chain passes no node twice
      obtain rfl := hd.eq ha (hrest.subset (by simp)) hid
      simp at hnodup

namespace EdgePlan

/-- **The node that falls back stands in between**: it lies inside the target,
and the new owner of the target is this node or lies inside it. -/
def Cuts (nodes : List Node) (plan : EdgePlan) : Prop :=
  ∃ orphan owner, plan.orphan = some orphan ∧ owner ∈ nodes ∧
    plan.scope.map Scope.owner = some owner.id ∧ Inside nodes plan.target orphan ∧
    (owner = orphan ∨ Inside nodes orphan owner)

/-- On the chain of the new place it stands before the target. -/
theorem cuts_iff (hd : DistinctIds nodes)
    (h : Chain nodes plan.scope (between ++ plan.target :: rest)) :
    plan.Cuts nodes ↔ ∃ orphan ∈ between, plan.orphan = some orphan := by
  have htarget := h.of_append
  have hbelow : ∀ orphan ∈ between, Inside nodes plan.target orphan := by
    intro orphan hmem
    obtain ⟨before, behind, rfl⟩ := List.append_of_mem hmem
    rw [List.append_assoc, List.cons_append] at h
    exact (inside_iff_mem_chain hd h.of_append).mpr (by simp)
  generalize hchain : between ++ plan.target :: rest = chain at h
  generalize hscope : plan.scope = scope at h
  cases h with
  | top => simp at hchain
  | @up place owner above howner hid habove =>
    have hfirst {orphan : Node} :
        (owner = orphan ∨ Inside nodes orphan owner) ↔ orphan ∈ between ++ plan.target :: rest := by
      rw [hchain, List.mem_cons, inside_iff_mem_chain hd habove, eq_comm]
    constructor
    · rintro ⟨orphan, owner', horphan, howner', hown, hinside, hwithin⟩
      rw [hscope] at hown
      obtain rfl := hd.eq howner' howner ((Option.some.inj hown).symm.trans hid.symm)
      refine ⟨orphan, (List.mem_append.mp (hfirst.mp hwithin)).resolve_right fun hbehind => ?_,
        horphan⟩
      -- behind the target it would be around it
      have hself : plan.target ∈ rest := by
        rcases List.mem_cons.mp hbehind with rfl | hbehind
        · exact (inside_iff_mem_chain hd htarget).mp hinside
        · have hround := (inside_iff_mem_chain hd htarget).mpr hbehind
          exact (inside_iff_mem_chain hd htarget).mp (hinside.trans hround)
      exact htarget.not_mem_self hd hself
    · rintro ⟨orphan, hmem, horphan⟩
      refine ⟨orphan, owner, horphan, howner, by rw [hscope, hid]; rfl,
        hbelow orphan hmem, hfirst.mpr (List.mem_append_left _ hmem)⟩

section Circle

variable (h : Rooted nodes)
variable (horphan : ∀ orphan, plan.orphan = some orphan →
  orphan ∈ nodes ∧ orphan.id ≠ plan.target.id)
variable (hchain : Chain nodes plan.scope (between ++ plan.target :: rest))

include h horphan hchain

/-- **Where the node that falls back is not in between there is a circle.** -/
theorem inside_self_of_not_mem (hout : ∀ orphan ∈ between, plan.orphan ≠ some orphan) :
    Inside (plan.nodes counter nodes) (plan.placed counter) (plan.placed counter) := by
  have ht : plan.target ∈ nodes := hchain.subset (by simp)
  have hnodup := (List.nodup_append.mp (hchain.nodup h.distinct)).2.2
  refine inside_of_chain hchain (fun a ha => ?_)
    (placed_mem_nodes ht fun orphan hsome => (horphan orphan hsome).2.symm) rfl rfl
  have hmem : a ∈ nodes := hchain.subset (List.mem_append_left _ ha)
  refine mem_nodes_of_ne hmem (fun hid => ?_) fun orphan hsome hid => ?_
  · exact hnodup a ha plan.target List.mem_cons_self (h.distinct.eq hmem ht hid)
  · obtain rfl := h.distinct.eq hmem (horphan orphan hsome).1 hid
    exact hout a ha hsome

/-- **Where it is in between there is none.** Once it has fallen back, the chain
of the new place ends at it. -/
theorem rooted_of_mem (hsome : plan.orphan = some o) (ho : o ∈ between) :
    Rooted (plan.nodes counter nodes) := by
  obtain ⟨hmem, hne⟩ := horphan o hsome
  obtain ⟨before, behind, rfl⟩ := List.append_of_mem ho
  have hnodup := hchain.nodup h.distinct
  rw [List.append_assoc, List.cons_append] at hchain hnodup
  have hfallen : Rooted (Edit.rescope o.id none counter.next.number nodes) :=
    h.rescope .top fun _ ha => (by cases ha)
  unfold EdgePlan.nodes
  rw [hsome]
  dsimp only
  rw [rescope_comm hne]
  refine hfallen.rescope (hchain.cut h.distinct counter.next.number) fun a ha hid => ?_
  rcases List.mem_append.mp ha with ha | ha
  · have hamem : a ∈ nodes := hchain.subset (List.mem_append_left _ ha)
    have ht : plan.target ∈ nodes := hchain.subset (by simp)
    obtain rfl := h.distinct.eq hamem ht hid
    exact (List.nodup_append.mp hnodup).2.2 _ ha _ (by simp) rfl
  · rw [List.mem_singleton.mp ha] at hid
    exact hne hid

/-- **The circle of a refused edge** is there unless the node that falls back
stands in between. -/
theorem circle_iff : (∃ n ∈ plan.nodes counter nodes, Inside (plan.nodes counter nodes) n n) ↔
    ¬ plan.Cuts nodes := by
  rw [cuts_iff h.distinct hchain]
  constructor
  · rintro ⟨n, hn, hinside⟩ ⟨orphan, hmem, hsome⟩
    have hrooted : Rooted (plan.nodes counter nodes) :=
      rooted_of_mem h horphan hchain hsome hmem
    exact not_inside_self hrooted.distinct (hrooted.grounded n hn) hinside
  · intro hout
    have ht : plan.target ∈ nodes := hchain.subset (by simp)
    refine ⟨_, placed_mem_nodes ht fun orphan hsome => (horphan orphan hsome).2.symm,
      inside_self_of_not_mem h horphan hchain fun orphan hmem hsome => hout ⟨orphan, hmem, hsome⟩⟩

end Circle

end EdgePlan

/-! ## Refused edges -/

section Refused

variable {id owner : String}

theorem Edit.found_eq_error_iff {α : Type} {error : StructureError} {value : Option α}
    {e : EditError} :
    Edit.found error value = .error e ↔ value = none ∧ EditError.structural error = e := by
  cases value <;> simp [Edit.found]

theorem Edit.lawful_eq_error_iff {α : Type} {result : Except StructureError α} {e : EditError} :
    Edit.lawful result = .error e ↔
      ∃ error, result = .error error ∧ EditError.structural error = e := by
  cases result <;> simp [Edit.lawful]

/-- A scope is not refused for a circle. -/
theorem Placement.check_ne_cyclic {moving : Option String} {kind : String} {payload : Payload} :
    Placement.check registry nodes moving kind payload scope ≠
      .error (.cyclicContainment id owner) := by
  intro h
  unfold Placement.check at h
  dsimp only at h
  split at h
  · split at h <;> cases h
  · split at h
    · cases h
    · unfold Placement.checkOwned at h
      split at h
      · cases h
      · dsimp only at h
        split at h
        · unfold Placement.checkOpening at h
          split_ifs at h <;> cases h
        · unfold Placement.checkPlain at h
          split_ifs at h <;> cases h

/-- A handle is not refused for a circle. -/
theorem Builtin.route_ne_cyclic (b : Builtin) (handle : Handle) :
    b.kind.route handle ≠ .error (.cyclicContainment id owner) := by
  cases b <;> cases handle <;> nofun

namespace EdgePlan

/-- **What moving an edge is meant to do**, whether it is refused or not: the
target comes to where the edge leads, and the old target, where it is another
node, falls back. -/
structure Intended (registry : Registry) (g : Graph) (replacing : Option String) (edge : Edge)
    (plan : EdgePlan) : Prop where
  target : g.node? edge.target = some plan.target
  scope : ∃ source kind route, g.node? edge.source = some source ∧
    registry.get? source.kind = some kind ∧ kind.route edge.handle = .ok route ∧
    plan.scope = Edit.scopeOf route source plan.orphan
  orphan : plan.orphan = (replacing.bind g.edge?).bind fun old =>
    if old.target = edge.target then none else g.node? old.target

/-- The node that falls back is the old target, where it is another node. -/
theorem orphan_eq {target : String} {orphan : Option Node}
    (h : orphanOf registry g replacing target = .ok orphan) :
    orphan = (replacing.bind g.edge?).bind fun old =>
      if old.target = target then none else g.node? old.target := by
  rcases orphanOf_eq_ok_iff.mp h with ⟨rfl, hsame⟩ | ⟨old, node, hold, hne, hnode, -, rfl⟩
  · cases hold : replacing.bind g.edge? with
    | none => rfl
    | some old => rw [Option.bind_some, if_pos (hsame old hold)]
  · rw [hold, Option.bind_some, if_neg hne, hnode]

/-- The node that falls back is not refused for a circle. -/
theorem orphanOf_ne_cyclic {target : String} :
    orphanOf registry g replacing target ≠ .error (.structural (.cyclicContainment id owner)) := by
  intro h
  unfold orphanOf at h
  split at h
  · cases h
  · split at h
    · cases h
    · simp only [Checks.bind_eq_error_iff, Edit.found_eq_error_iff, Edit.lawful_eq_error_iff] at h
      rcases h with ⟨-, h⟩ | ⟨node, -, ⟨error, hcheck, h⟩ | ⟨⟨⟩, -, h⟩⟩
      · cases h
      · cases h
        exact Placement.check_ne_cyclic hcheck
      · cases h

/-- **An edge that is refused for a circle** is refused for what it is meant to
do. -/
theorem exists_intended_of_cyclic (hreg : registry.OnlyBuiltins)
    (h : ofEdge registry g replacing edge = .error (.structural (.cyclicContainment id owner))) :
    ∃ plan : EdgePlan, plan.Intended registry g replacing edge ∧
      Placement.checkAcyclic g plan.target.id plan.scope ≠ .ok () := by
  simp only [ofEdge, Checks.bind_eq_error_iff, Edit.found_eq_error_iff, Edit.found_eq_ok_iff,
    Edit.lawful_eq_error_iff, Edit.lawful_eq_ok_iff] at h
  rcases h with ⟨-, h⟩ | ⟨source, hsource, h⟩
  · cases h
  rcases h with ⟨-, h⟩ | ⟨target, htarget, h⟩
  · cases h
  rcases h with ⟨-, h⟩ | ⟨kind, hkind, h⟩
  · cases h
  rcases h with h | ⟨orphan, horphan, h⟩
  · exact absurd h orphanOf_ne_cyclic
  rcases h with ⟨error, hroute, h⟩ | ⟨route, hroute, h⟩
  · cases h
    obtain ⟨b, rfl⟩ := hreg _ _ hkind
    exact absurd hroute (b.route_ne_cyclic _)
  rcases h with ⟨error, hacyclic, h⟩ | ⟨⟨⟩, -, ⟨error, hcheck, h⟩ | ⟨⟨⟩, -, h⟩⟩
  · refine ⟨⟨target, Edit.scopeOf route source orphan, orphan⟩,
      ⟨htarget, ⟨source, kind, route, hsource, hkind, hroute, rfl⟩, ?_⟩, ?_⟩
    · exact orphan_eq horphan
    · intro hacyclic'
      rw [hacyclic] at hacyclic'
      cases hacyclic'
  · cases h
    exact absurd hcheck Placement.check_ne_cyclic
  · cases h

namespace Intended

/-- The node that falls back is another node than the target. -/
theorem mem_of_orphan (h : plan.Intended registry g replacing edge) (hsome : plan.orphan = some o) :
    o ∈ g.nodes ∧ o.id ≠ plan.target.id := by
  obtain ⟨-, htid⟩ := Graph.mem_of_node? h.target
  have horphan := h.orphan
  rw [hsome] at horphan
  obtain ⟨old, -, hnode⟩ := Option.bind_eq_some_iff.mp horphan.symm
  split at hnode
  · cases hnode
  · rename_i hne
    obtain ⟨hmem, hid⟩ := Graph.mem_of_node? hnode
    exact ⟨hmem, by rw [hid, htid]; exact hne⟩

/-- The chain of the new place ends. -/
theorem grounded (h : plan.Intended registry g replacing edge) (hrooted : Rooted g.nodes) :
    Grounded g.nodes plan.scope := by
  obtain ⟨source, kind, route, hsource, -, -, hscope⟩ := h.scope
  obtain ⟨hs, -⟩ := Graph.mem_of_node? hsource
  rw [hscope]
  cases route with
  | slot slot => exact hrooted.grounded_of_owner fun _ hplace => ⟨source, hs, by cases hplace; rfl⟩
  | root => exact ⟨[], .top⟩
  | sibling =>
    unfold Edit.scopeOf
    dsimp only
    split
    · exact ⟨[], .top⟩
    · exact hrooted.grounded source hs

end Intended

end EdgePlan

end Refused

/-- **A moved edge may be refused for a circle that it would not make.** When a
reachable store, over built-in kinds and aliases, refuses to move an edge for a
circle, the whole move would make one unless the node that falls back stands
between the new owner of the target and the target. -/
theorem circle_iff_not_cuts_of_refused {aliases : List (String × String)}
    (h : Reachable (Registry.builtin.withAliases aliases) store) {id source target : String}
    {handle : Handle} {node owner : String}
    (hrefused : (store.perform (.reconnect id source target handle)).1 =
      .error (.structural (.cyclicContainment node owner))) :
    ∃ plan : EdgePlan,
      plan.Intended (Registry.builtin.withAliases aliases) store.graph (some id)
        ⟨id, source, target, handle⟩ ∧
      let nodes := plan.nodes store.nextSequence store.graph.nodes
      ((∃ n ∈ nodes, Inside nodes n n) ↔ ¬ plan.Cuts store.graph.nodes) := by
  obtain ⟨hstore, hregistry⟩ := h.consistent
  have hrooted := hstore.graph.rooted
  have hplan : EdgePlan.ofEdge (Registry.builtin.withAliases aliases) store.graph (some id)
      ⟨id, source, target, handle⟩ = .error (.structural (.cyclicContainment node owner)) := by
    rw [← hregistry]
    rw [Store.perform, Operation.edit, Edit.run_map, Edit.run_reconnect] at hrefused
    split at hrefused
    · cases hrefused
    · split at hrefused
      · rename_i error herror
        cases hrefused
        exact herror
      · cases hrefused
  obtain ⟨plan, hintended, hcircle⟩ :=
    EdgePlan.exists_intended_of_cyclic (Registry.onlyBuiltins_withAliases aliases) hplan
  obtain ⟨chain, hchain⟩ := hintended.grounded hrooted
  obtain ⟨a, ha, hid⟩ : ∃ a ∈ chain, a.id = plan.target.id := by
    rw [Ne, Placement.checkAcyclic_eq_ok_iff hrooted.distinct hchain] at hcircle
    push Not at hcircle
    exact hcircle
  obtain rfl := hrooted.distinct.eq (hchain.subset ha) (Graph.mem_of_node? hintended.target).1 hid
  obtain ⟨between, rest, rfl, -⟩ := hchain.exists_of_mem ha
  exact ⟨plan, hintended,
    EdgePlan.circle_iff hrooted (fun _ => hintended.mem_of_orphan) hchain⟩

/-- A group with a group and an action in its body, each where an edge has put
it. -/
def Document.withInner : Document where
  nodes := [⟨"outer", "group", none, 0, .origin, .empty⟩,
    ⟨"inner", "group", some "outer", 1, .origin, .empty⟩,
    ⟨"a", "action", some "outer", 2, .origin, .empty⟩]
  edges := [⟨"e", "outer", "inner", .primary⟩, ⟨"f", "outer", "a", .primary⟩]
  vars := []
  assistants := []

/-- The store of the document. -/
def Store.withInner : Store :=
  (Document.withInner.loaded Registry.builtin ⟨fun _ => 0, 0⟩).store

theorem reachable_withInner : Reachable Registry.builtin Store.withInner :=
  have hload : Document.withInner.load Registry.builtin ⟨fun _ => 0, 0⟩ =
      .ok (Document.withInner.loaded Registry.builtin ⟨fun _ => 0, 0⟩) := rfl
  ⟨_, [], .loaded hload, rfl⟩

/-- The two groups and the action. -/
def outerGroup : Node := ⟨"outer", "group", none, 0, .origin, .empty⟩

def innerGroup : Node := ⟨"inner", "group", some ⟨"outer", .body⟩, 1, .origin, .empty⟩

def innerAction : Node := ⟨"a", "action", some ⟨"outer", .body⟩, 2, .origin, .empty⟩

theorem nodes_withInner :
    Store.withInner.graph.nodes = [outerGroup, innerGroup, innerAction] := rfl

/-- From the inner group one comes to the outer one, and to the top level. -/
theorem chain_innerGroup :
    Chain Store.withInner.graph.nodes innerGroup.scope [outerGroup] := by
  rw [nodes_withInner]
  exact .up (.head _) rfl .top

/-- The edge to the action may not be moved so that it puts the outer group into
the inner one: the action that falls back is not in between, and there would be
a circle. -/
theorem circle_iff_not_cuts_of_refused_withInner :
    (Store.withInner.perform (.reconnect "f" "inner" "outer" .primary)).1 =
        .error (.structural (.cyclicContainment "outer" "inner")) ∧
      ∃ plan : EdgePlan,
        plan.Intended Registry.builtin Store.withInner.graph (some "f")
          ⟨"f", "inner", "outer", .primary⟩ ∧
        ∃ n ∈ plan.nodes Store.withInner.nextSequence Store.withInner.graph.nodes,
          Inside (plan.nodes Store.withInner.nextSequence Store.withInner.graph.nodes) n n := by
  have hrefused : (Store.withInner.perform (.reconnect "f" "inner" "outer" .primary)).1 =
      .error (.structural (.cyclicContainment "outer" "inner")) := rfl
  have hreachable : Reachable (Registry.builtin.withAliases []) Store.withInner :=
    reachable_withInner
  have hd := hreachable.consistent.1.graph.rooted.distinct
  obtain ⟨plan, hintended, hiff⟩ := circle_iff_not_cuts_of_refused hreachable hrefused
  refine ⟨hrefused, plan, hintended, hiff.mpr ?_⟩
  rintro ⟨orphan, owner, horphan, howner, hscope, -, hwithin⟩
  obtain rfl : innerAction = orphan := Option.some.inj (hintended.orphan.symm.trans horphan)
  obtain ⟨source, kind, route, hsource, hkind, hroute, hplace⟩ := hintended.scope
  obtain rfl : innerGroup = source := Option.some.inj hsource
  obtain rfl : Builtin.group.kind = kind := Option.some.inj hkind
  obtain rfl : Route.slot .body = route := Except.ok.inj hroute
  rw [hplace] at hscope
  have hinner : innerGroup ∈ Store.withInner.graph.nodes := List.mem_cons_of_mem _ (.head _)
  obtain rfl := hd.eq hinner howner (Option.some.inj hscope)
  -- the action is neither the inner group nor around it
  rcases hwithin with heq | hinside
  · exact absurd (congrArg Node.id heq) (by decide)
  · have hmem := (inside_iff_mem_chain hd chain_innerGroup).mp hinside
    exact absurd (congrArg Node.id (List.mem_singleton.mp hmem)) (by decide)

/-- **A move is refused for a circle that it would not make**: the edge to the
inner group, moved so that it puts the outer group into the inner one, takes the
inner group out of the outer one. -/
theorem reconnect_refused_without_circle :
    Reachable Registry.builtin Store.withInner ∧
      (Store.withInner.perform (.reconnect "e" "inner" "outer" .primary)).1 =
        .error (.structural (.cyclicContainment "outer" "inner")) ∧
      ∃ plan : EdgePlan,
        plan.Intended Registry.builtin Store.withInner.graph (some "e")
          ⟨"e", "inner", "outer", .primary⟩ ∧
        ¬ ∃ n ∈ plan.nodes Store.withInner.nextSequence Store.withInner.graph.nodes,
          Inside (plan.nodes Store.withInner.nextSequence Store.withInner.graph.nodes) n n := by
  let plan : EdgePlan := ⟨outerGroup, some ⟨"inner", .body⟩, some innerGroup⟩
  have hintended : plan.Intended Registry.builtin Store.withInner.graph (some "e")
      ⟨"e", "inner", "outer", .primary⟩ :=
    ⟨rfl, ⟨innerGroup, Builtin.group.kind, .slot .body, rfl, rfl, rfl, rfl⟩, rfl⟩
  have hrooted := reachable_withInner.consistent.1.graph.rooted
  have hinner : innerGroup ∈ Store.withInner.graph.nodes := List.mem_cons_of_mem _ (.head _)
  have hchain : Chain Store.withInner.graph.nodes plan.scope ([innerGroup] ++ plan.target :: []) :=
    .up hinner rfl chain_innerGroup
  refine ⟨reachable_withInner, rfl, plan, hintended, ?_⟩
  rw [EdgePlan.circle_iff hrooted (fun _ => hintended.mem_of_orphan) hchain, not_not,
    EdgePlan.cuts_iff hrooted.distinct hchain]
  exact ⟨innerGroup, .head _, rfl⟩

end StepGraph
