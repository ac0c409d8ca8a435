import StepGraph.Proofs.Script.RecastScript
import StepGraph.Proofs.Store.RecastEdit

/-!
# Stores that are alike

Two stores are alike under a recasting when the graph of the second is the
recast graph of the first and both count on in step (`Likeness`). An
operation and its recast are then answered alike and leave stores that are
alike again (`Likeness.perform`). A new id is recast to the new id of the
other store. Neither was in use, so the recasting of all that is there stays
as it is (`Likeness.withId`); the new numbers come last in both stores, so
siblings keep their order. When a counter goes round this fails, and then they
keep it only if the recasting leaves ids and numbers alone (`Recast.Steady`).
-/

namespace StepGraph

open List (Forall₂)

variable {r r' : Recast} {R K : String → String → Prop} {registry : Registry} {g : Graph}
variable {s s' after after' : Store}

/-! ## New ids -/

namespace Recast

/-- The recasting that sends one id to another. -/
def withId (r : Recast) (id id' : String) : Recast where
  ids := r.ids.trans (Equiv.swap (r.ids id) id')
  kinds := r.kinds
  sequences := r.sequences
  kinds_tag := r.kinds_tag

theorem withId_ids_self (r : Recast) (id id' : String) : (r.withId id id').ids id = id' :=
  Equiv.swap_apply_left _ _

/-- Every other id goes where it went, unless that is the new one. -/
theorem withId_ids_of_ne {id id' other : String} (h : other ≠ id) (h' : r.ids other ≠ id') :
    (r.withId id id').ids other = r.ids other :=
  Equiv.swap_apply_of_ne_of_ne (r.ids.injective.ne h) h'

/-- An id that goes to itself is nothing new. -/
theorem withId_self (h : r.ids = Equiv.refl String) (id : String) : r.withId id id = r := by
  have hids : (r.withId id id).ids = r.ids := by
    rw [withId, h, Equiv.refl_apply, Equiv.swap_self, Equiv.refl_trans]
  cases r
  rw [withId, mk.injEq]
  exact ⟨hids, rfl, rfl⟩

/-- **A graph is recast by what its own ids go to.** -/
theorem graph_congr (hsound : g.Sound registry) (hkinds : r'.kinds = r.kinds)
    (hsequences : r'.sequences = r.sequences) (hids : ∀ id ∈ g.usedIds, r'.ids id = r.ids id) :
    r'.graph g = r.graph g := by
  have hnodeIds : ∀ id ∈ g.nodes.map Node.id, r'.ids id = r.ids id :=
    fun id hid => hids id (List.mem_append_left _ hid)
  have hnodes : g.nodes.map r'.node = g.nodes.map r.node := by
    refine List.map_congr_left fun n hn => ?_
    have hscope : n.scope.map r'.scope = n.scope.map r.scope :=
      Option.map_congr fun scope hscope => by
        rw [Recast.scope, Recast.scope, hnodeIds _ (hsound.consistent.owner_mem hn hscope)]
    rw [Recast.node, Recast.node, hkinds, hsequences, hscope,
      hnodeIds _ (List.mem_map_of_mem hn)]
  have hedges : g.edges.map r'.edge = g.edges.map r.edge := by
    refine List.map_congr_left fun e he => ?_
    rw [Recast.edge, Recast.edge, hids _ (List.mem_append_right _ (List.mem_map_of_mem he)),
      hnodeIds _ (hsound.ends e he).1, hnodeIds _ (hsound.ends e he).2]
  have hvars : g.vars.entries.map r'.entry = g.vars.entries.map r.entry := by
    refine List.map_congr_left fun v hv => ?_
    rw [Recast.entry, Recast.entry, hnodeIds _ (hsound.producers v hv)]
  rw [Recast.graph, Recast.graph, hnodes, hedges, Recast.vars, Recast.vars, hvars]

end Recast

/-! ## Likeness -/

/-- **Two stores that differ by a recasting.** -/
structure Likeness (r : Recast) (s s' : Store) : Prop where
  graph : s'.graph = r.graph s.graph
  /-- A tag stands for what it stands for in the other store. -/
  bound : ∀ tag, s'.registry.get? (r.kinds tag) = s.registry.get? tag
  /-- The numbers to come are recast to the numbers to come. -/
  counter : ∀ i, r.sequences (s.nextSequence.count + i) = s'.nextSequence.count + i
  /-- The second store has not come further. -/
  behind : s'.nextSequence.count ≤ s.nextSequence.count
  /-- Siblings stand in the same order. -/
  order : r.KeepsOrder s.graph.nodes
  builtins : s.registry.OnlyBuiltins
  builtins' : s'.registry.OnlyBuiltins
  sound : s.Sound
  sound' : s'.Sound

/-- **New numbers keep siblings in order** on the way to a store: nothing has a
new id or number at all, or the counter of the store has never gone round. -/
def Recast.Steady (r : Recast) (after : Store) : Prop :=
  r.ids = Equiv.refl String ∧ r.sequences = id ∨ after.nextSequence.Exact

/-- What is steady up to the end of a run is steady at its beginning. -/
theorem Recast.Steady.of_performAll {operations : List Operation}
    (h : r.Steady (s.performAll operations).2) : r.Steady s :=
  h.imp_right (exact_of_performAll operations)

/-- The id that a store draws next. -/
def Store.drawn (store : Store) (stem : String) : String :=
  (store.ids.next stem store.graph.usedIds).1

namespace Likeness

theorem nodes (h : Likeness r s s') : s'.graph.nodes = s.graph.nodes.map r.node := by
  rw [h.graph, Recast.graph_nodes]

/-- A node of one store is found under its new id in the other. -/
theorem node?_eq (h : Likeness r s s') (id : String) :
    s'.graph.node? (r.ids id) = (s.graph.node? id).map r.node := by
  rw [h.graph, Recast.node?_graph]

theorem edge?_eq (h : Likeness r s s') (id : String) :
    s'.graph.edge? (r.ids id) = (s.graph.edge? id).map r.edge := by
  rw [h.graph, Recast.edge?_graph]

/-- What the stores are compared by. -/
theorem fits (h : Likeness r s s') (hR : ∀ n ∈ s.graph.nodes, R n.id (r.ids n.id))
    (hK : ∀ tag, K tag (r.kinds tag)) : r.Fits R K s.registry s'.registry s.graph.nodes :=
  ⟨hR, hK, h.bound, h.builtins, h.order⟩

/-- What they are compared by where nothing is asked of the names. -/
theorem fits_trivially (h : Likeness r s s') :
    r.Fits (fun _ _ => True) (fun _ _ => True) s.registry s'.registry s.graph.nodes :=
  h.fits (fun _ _ => trivial) fun _ => trivial

/-- The sources of ids do not count. -/
theorem setIds (h : Likeness r s s') (ids ids' : IdSource) :
    Likeness r { s with ids } { s' with ids := ids' } :=
  ⟨h.graph, h.bound, h.counter, h.behind, h.order, h.builtins, h.builtins',
    ⟨h.sound.graph, h.sound.sequences⟩, ⟨h.sound'.graph, h.sound'.sequences⟩⟩

/-- What is in use goes where it went when a new id is recast. -/
theorem withId_ids (h : Likeness r s s') {id id' : String} (hid : id ∉ s.graph.usedIds)
    (hid' : id' ∉ s'.graph.usedIds) {other : String} (hother : other ∈ s.graph.usedIds) :
    (r.withId id id').ids other = r.ids other := by
  refine Recast.withId_ids_of_ne (fun heq => hid (heq ▸ hother)) fun heq => hid' ?_
  rw [h.graph, Recast.usedIds_graph, ← heq]
  exact List.mem_map_of_mem hother

/-- **New ids change nothing for the graphs as they are.** -/
theorem withId (h : Likeness r s s') {id id' : String} (hid : id ∉ s.graph.usedIds)
    (hid' : id' ∉ s'.graph.usedIds) : Likeness (r.withId id id') s s' := by
  have hgraph : (r.withId id id').graph s.graph = r.graph s.graph :=
    Recast.graph_congr h.sound.graph rfl rfl fun _ => h.withId_ids hid hid'
  have hnodes : s.graph.nodes.map (r.withId id id').node = s.graph.nodes.map r.node :=
    congrArg Graph.nodes hgraph
  refine ⟨h.graph.trans hgraph.symm, h.bound, h.counter, h.behind, fun m hm n hn => ?_,
    h.builtins, h.builtins', h.sound, h.sound'⟩
  rw [List.map_inj_left.mp hnodes m hm, List.map_inj_left.mp hnodes n hn]
  exact h.order m hm n hn

/-- The ids that are drawn next are in use nowhere. -/
theorem withDrawn (h : Likeness r s s') (stem : String) :
    Likeness (r.withId (s.drawn stem) (s'.drawn stem)) s s' :=
  h.withId IdSource.next_not_mem IdSource.next_not_mem

theorem withDrawn_ids (h : Likeness r s s') (stem : String) {id : String}
    (hid : id ∈ s.graph.nodes.map Node.id) :
    (r.withId (s.drawn stem) (s'.drawn stem)).ids id = r.ids id :=
  h.withId_ids IdSource.next_not_mem IdSource.next_not_mem (List.mem_append_left _ hid)

/-- Where the first store has an exact counter, so has the second. -/
theorem exact (h : Likeness r s s') (hexact : s.nextSequence.Exact) : s'.nextSequence.Exact :=
  Counter.exact_iff.mpr (Nat.lt_of_le_of_lt h.behind (Counter.exact_iff.mp hexact))

/-- **A number to come** is recast to the one of the other store. -/
theorem number_eq (h : Likeness r s s') {c c' : Counter} (i : Nat)
    (hc : c.count = s.nextSequence.count + i) (hc' : c'.count = s'.nextSequence.count + i)
    (hsteady : r.sequences = id ∨ c.Exact) : r.sequences c.number = c'.number := by
  have hcount : r.sequences c.count = c'.count := by rw [hc, hc', h.counter]
  rcases hsteady with hid | hexact
  · rw [hid, id_eq] at hcount ⊢
    rw [Counter.number_eq_mod, hcount, ← Counter.number_eq_mod]
  · have hbelow := Counter.exact_iff.mp hexact
    have hbehind := h.behind
    have hexact' : c'.Exact := Counter.exact_iff.mpr (by omega)
    rw [hexact.number_eq, hexact'.number_eq, hcount]

/-- **After a change of both stores**: the graphs have to differ by the
recasting again, and nodes may have taken new numbers. -/
theorem next (h : Likeness r s s') (hsteady : r.Steady after)
    (hgraph : after'.graph = r.graph after.graph) (hregistry : after.registry = s.registry)
    (hregistry' : after'.registry = s'.registry) (hsound : after.Sound) (hsound' : after'.Sound)
    (taken : Nat) (hcount : after.nextSequence.count = s.nextSequence.count + taken)
    (hcount' : after'.nextSequence.count = s'.nextSequence.count + taken) (idOf : Nat → String)
    (hnew : after.nextSequence.Exact → ∀ n' ∈ after.graph.nodes,
      (∃ n ∈ s.graph.nodes, n.id = n'.id ∧ n.sequence = n'.sequence) ∨
        ∃ i, n'.sequence = s.nextSequence.count + i ∧ n'.id = idOf i) :
    Likeness r after after' where
  graph := hgraph
  bound := by rw [hregistry, hregistry']; exact h.bound
  counter i := by rw [hcount, hcount', Nat.add_assoc, h.counter, Nat.add_assoc]
  behind := by rw [hcount, hcount']; exact Nat.add_le_add_right h.behind taken
  order := by
    rcases hsteady with ⟨hids, hsequences⟩ | hexact
    · exact .of_same hids (congrFun hsequences) _
    · have hfirst : s.nextSequence.Exact :=
        Counter.exact_iff.mpr (by have := Counter.exact_iff.mp hexact; omega)
      refine h.order.of_new (fun n hn => ?_) (fun n hn => ?_) h.counter idOf (hnew hexact)
      · rw [← hfirst.number_eq]
        exact h.sound.sequences hfirst n hn
      · have hsecond := h.exact hfirst
        rw [← hsecond.number_eq]
        exact h.sound'.sequences hsecond (r.node n) (by rw [h.nodes]; exact List.mem_map_of_mem hn)
  builtins := hregistry ▸ h.builtins
  builtins' := hregistry' ▸ h.builtins'
  sound := hsound
  sound' := hsound'

/-- **After a change that takes no number**: the order of nodes stays. -/
theorem kept (h : Likeness r s s') (hgraph : after'.graph = r.graph after.graph)
    (hregistry : after.registry = s.registry) (hregistry' : after'.registry = s'.registry)
    (hcounter : after.nextSequence = s.nextSequence)
    (hcounter' : after'.nextSequence = s'.nextSequence) (hsound : after.Sound)
    (hsound' : after'.Sound)
    (hkept : ∀ n' ∈ after.graph.nodes,
      ∃ n ∈ s.graph.nodes, n.id = n'.id ∧ n.sequence = n'.sequence) : Likeness r after after' where
  graph := hgraph
  bound := by rw [hregistry, hregistry']; exact h.bound
  counter := by rw [hcounter, hcounter']; exact h.counter
  behind := by rw [hcounter, hcounter']; exact h.behind
  order := h.order.of_kept hkept
  builtins := hregistry ▸ h.builtins
  builtins' := hregistry' ▸ h.builtins'
  sound := hsound
  sound' := hsound'

/-! ## Changes of both stores -/

/-- **A node comes** under the next id of each store, with the variable of
its output where it has one. -/
theorem added (h : Likeness r s s') (hid : r.ids (s.drawn "node") = s'.drawn "node")
    {kind : String} {payload : Payload} {scope : Option Scope} (output : Option Output)
    (hsteady : r.Steady ((s.withNode kind payload scope).withOutput output (s.drawn "node")))
    (hsound : ((s.withNode kind payload scope).withOutput output (s.drawn "node")).Sound)
    (hsound' : ((s'.withNode (r.kinds kind) payload (scope.map r.scope)).withOutput output
      (s'.drawn "node")).Sound) :
    Likeness r ((s.withNode kind payload scope).withOutput output (s.drawn "node"))
      ((s'.withNode (r.kinds kind) payload (scope.map r.scope)).withOutput output
        (s'.drawn "node")) := by
  have hnode : r.node (s.newNode kind payload scope) =
      s'.newNode (r.kinds kind) payload (scope.map r.scope) := by
    have hnumber : r.sequences s.nextSequence.number = s'.nextSequence.number := by
      refine h.number_eq 0 rfl rfl (hsteady.imp And.right fun hexact => ?_)
      rw [Store.nextSequence_withNode] at hexact
      exact hexact.of_next
    rw [Recast.node, Store.newNode, Store.newNode]
    simp only [hnumber]
    exact congrArg (fun id => Node.mk id _ _ _ _ _) hid
  have hnodes : (s.withNode kind payload scope).graph.nodes.map r.node =
      (s'.withNode (r.kinds kind) payload (scope.map r.scope)).graph.nodes := by
    rw [Store.withNode, Store.withNode, List.map_append, ← h.nodes, List.map_singleton, hnode]
  have hwith : r.graph (s.withNode kind payload scope).graph =
      (s'.withNode (r.kinds kind) payload (scope.map r.scope)).graph := by
    rw [Recast.graph, hnodes]
    simp only [Store.withNode, h.graph, Recast.graph]
  refine h.next hsteady ?_ ?_ ?_ hsound hsound' 1 ?_ ?_ (fun _ => s.drawn "node") ?_
  · cases output with
    | none => exact hwith.symm
    | some output =>
      have hvars : r.vars (s.graph.vars.appended (Edit.outputVariable output (s.drawn "node"))) =
          s'.graph.vars.appended (Edit.outputVariable output (s'.drawn "node")) := by
        rw [← Recast.appended_vars, h.graph, ← hid]
        rfl
      exact congrArg₂ (fun (g : Graph) vars => Graph.mk g.nodes g.edges vars g.assistants)
        hwith.symm hvars.symm
  · cases output <;> rfl
  · cases output <;> rfl
  · rw [Store.nextSequence_withNode, Counter.count_next]
  · rw [Store.nextSequence_withNode, Counter.count_next]
  · intro hexact n' hn'
    rw [Store.nextSequence_withNode] at hexact
    have hmem : n' ∈ s.graph.nodes ++ [s.newNode kind payload scope] := by
      cases output <;> exact hn'
    rcases List.mem_append.mp hmem with hmem | hmem
    · exact .inl ⟨n', hmem, rfl, rfl⟩
    · rw [List.mem_singleton.mp hmem]
      exact .inr ⟨0, hexact.of_next.number_eq, rfl⟩

/-- **A node goes** with all inside it. -/
theorem removed (h : Likeness r s s') (id : String)
    (hsound : Store.Sound { s with graph := s.graph.without id })
    (hsound' : Store.Sound { s' with graph := s'.graph.without (r.ids id) }) :
    Likeness r { s with graph := s.graph.without id }
      { s' with graph := s'.graph.without (r.ids id) } := by
  refine h.kept ?_ rfl rfl rfl rfl hsound hsound' fun n hn =>
    ⟨n, List.mem_of_mem_filter hn, rfl, rfl⟩
  dsimp only
  rw [Recast.graph_without h.order, h.graph]

/-- A node is drawn elsewhere. -/
theorem redrawn (h : Likeness r s s') (id : String) (position : Position)
    (hsound : Store.Sound { s with graph := s.graph.moved id position })
    (hsound' : Store.Sound { s' with graph := s'.graph.moved (r.ids id) position }) :
    Likeness r { s with graph := s.graph.moved id position }
      { s' with graph := s'.graph.moved (r.ids id) position } := by
  refine h.kept ?_ rfl rfl rfl rfl hsound hsound' fun n' hn' => ?_
  · dsimp only
    rw [Recast.graph_moved, h.graph]
  · obtain ⟨n, hn, rfl⟩ := List.mem_map.mp hn'
    refine ⟨n, hn, ?_⟩
    split <;> exact ⟨rfl, rfl⟩

/-- A node after a move is one of before or has the new number. -/
theorem of_mem_rescope {nodes : List Node} {id : String} {scope : Option Scope} {sequence : Nat}
    {n' : Node} (hn' : n' ∈ Edit.rescope id scope sequence nodes) :
    (∃ n ∈ nodes, n.id = n'.id ∧ n.sequence = n'.sequence) ∨
      n'.sequence = sequence ∧ n'.id = id := by
  rcases mem_rescope.mp hn' with ⟨hn, -⟩ | ⟨t, -, hid, rfl⟩
  · exact .inl ⟨n', hn, rfl, rfl⟩
  · exact .inr ⟨rfl, hid⟩

/-- **An edge is put in place** as it is planned. -/
theorem planned (h : Likeness r s s') (replacing : Option String) (edge : Edge) (plan : EdgePlan)
    (hsteady : r.Steady (plan.store replacing edge s))
    (hsound : (plan.store replacing edge s).Sound)
    (hsound' : ((r.plan plan).store (replacing.map r.ids) (r.edge edge) s').Sound) :
    Likeness r (plan.store replacing edge s)
      ((r.plan plan).store (replacing.map r.ids) (r.edge edge) s') := by
  have hfirst : r.sequences s.nextSequence.number = s'.nextSequence.number :=
    h.number_eq 0 rfl rfl (hsteady.imp And.right
      fun (hexact : (plan.counter s.nextSequence).Exact) => hexact.of_plan.of_next)
  have hsecond : r.sequences s.nextSequence.next.number = s'.nextSequence.next.number :=
    h.number_eq 1 (Counter.count_next _) (Counter.count_next _) (hsteady.imp And.right
      fun (hexact : (plan.counter s.nextSequence).Exact) => hexact.of_plan)
  refine h.next hsteady ?_ rfl rfl hsound hsound' (if plan.orphan.isSome then 2 else 1)
    (plan.count_counter _) ?_
    (fun i => if i = 0 then plan.target.id else (plan.orphan.map Node.id).getD "")
    fun (hexact : (plan.counter s.nextSequence).Exact) n' hn' => ?_
  · rw [EdgePlan.store, EdgePlan.store]
    dsimp only
    rw [Recast.graph_plan _ _ _ _ hfirst hsecond, h.graph]
  · rw [← Option.isSome_map, ← Recast.plan_orphan]
    exact (r.plan plan).count_counter _
  · replace hn' : n' ∈ plan.nodes s.nextSequence s.graph.nodes := hn'
    rw [EdgePlan.nodes] at hn'
    have hnext := hexact.of_plan
    cases horphan : plan.orphan with
    | none =>
      rw [horphan, hnext.of_next.number_eq] at hn'
      exact (of_mem_rescope hn').imp_right fun hnew => ⟨0, hnew⟩
    | some orphan =>
      rw [horphan, hnext.number_eq, hnext.of_next.number_eq, Counter.count_next] at hn'
      -- first the target has moved, and then the node that falls back
      rcases of_mem_rescope hn' with ⟨n, hn, hid, hseq⟩ | hback
      · rcases of_mem_rescope hn with ⟨m, hm, hmid, hmseq⟩ | hplaced
        · exact .inl ⟨m, hm, hmid.trans hid, hmseq.trans hseq⟩
        · exact .inr ⟨0, hseq.symm.trans hplaced.1, hid.symm.trans hplaced.2⟩
      · exact .inr ⟨1, hback⟩

/-- An edge is deleted. -/
theorem released (h : Likeness r s s') (target edge : String)
    (hsteady : r.Steady { s with
      graph := s.graph.released target edge s.nextSequence.number
      nextSequence := s.nextSequence.next })
    (hsound : Store.Sound { s with
      graph := s.graph.released target edge s.nextSequence.number
      nextSequence := s.nextSequence.next })
    (hsound' : Store.Sound { s' with
      graph := s'.graph.released (r.ids target) (r.ids edge) s'.nextSequence.number
      nextSequence := s'.nextSequence.next }) :
    Likeness r
      { s with
        graph := s.graph.released target edge s.nextSequence.number
        nextSequence := s.nextSequence.next }
      { s' with
        graph := s'.graph.released (r.ids target) (r.ids edge) s'.nextSequence.number
        nextSequence := s'.nextSequence.next } := by
  have hfirst : r.sequences s.nextSequence.number = s'.nextSequence.number :=
    h.number_eq 0 rfl rfl (hsteady.imp And.right Counter.Exact.of_next)
  refine h.next hsteady ?_ rfl rfl hsound hsound' 1 (Counter.count_next _) (Counter.count_next _)
    (fun _ => target) fun (hexact : s.nextSequence.next.Exact) n' hn' => ?_
  · dsimp only
    rw [Recast.graph_released, hfirst, h.graph]
  · exact (of_mem_rescope hn').imp_right fun ⟨hnumber, hid⟩ =>
      ⟨0, hnumber.trans hexact.of_next.number_eq, hid⟩

/-- The name tables change. -/
theorem renamed (h : Likeness r s s') {vars vars' : VariableTable}
    {assistants assistants' : AssistantTable} (hvars : vars' = r.vars vars)
    (hassistants : assistants' = assistants)
    (hsound : Store.Sound { s with graph := { s.graph with vars, assistants } })
    (hsound' : Store.Sound { s' with graph :=
      { s'.graph with vars := vars', assistants := assistants' } }) :
    Likeness r { s with graph := { s.graph with vars, assistants } }
      { s' with graph := { s'.graph with vars := vars', assistants := assistants' } } := by
  subst hvars hassistants
  refine h.kept ?_ rfl rfl rfl rfl hsound hsound' fun n hn => ⟨n, hn, rfl, rfl⟩
  dsimp only
  rw [h.graph]
  rfl

end Likeness

/-! ## Operations -/

/-- An operation under the new names. -/
def Operation.recast (r : Recast) : Operation → Operation
  | addNode kind payload scope => addNode (r.kinds kind) payload (scope.map r.scope)
  | addStep step scope => addStep step (scope.map r.scope)
  | removeNode id => removeNode (r.ids id)
  | moveNode id position => moveNode (r.ids id) position
  | connect source target handle => connect (r.ids source) (r.ids target) handle
  | reconnect id source target handle => reconnect (r.ids id) (r.ids source) (r.ids target) handle
  | disconnect id => disconnect (r.ids id)
  | registerVariable name displayName producer =>
    registerVariable name displayName (r.ids producer)
  | registerAssistant name model personality => registerAssistant name model personality

/-- The ids that an operation names. -/
def Operation.names : Operation → List String
  | addNode _ _ scope => (scope.map Scope.owner).toList
  | addStep _ scope => (scope.map Scope.owner).toList
  | removeNode id => [id]
  | moveNode id _ => [id]
  | connect source target _ => [source, target]
  | reconnect id source target _ => [id, source, target]
  | disconnect id => [id]
  | registerVariable _ _ producer => [producer]
  | registerAssistant _ _ _ => []

/-- **How two stores go on in step**: what both answer, and what they are
afterwards as long as numbers keep their order. -/
inductive Lockstep (R K : String → String → Prop) (r : Recast) (s s' : Store) :
    Except EditError (Option String) × Store → Except EditError (Option String) × Store → Prop
  /-- Both refuse for the same cause and stay as they were. -/
  | refused {e e' : EditError} : EditError.Alike R K e e' →
      Lockstep R K r s s' (.error e, s) (.error e', s')
  /-- Both refuse for the same cause and have drawn an id for an edge. -/
  | refusedEdge {e e' : EditError} : EditError.Alike R K e e' →
      Lockstep R K r s s'
        (.error e, { s with ids := (s.ids.next "edge" s.graph.usedIds).2 })
        (.error e', { s' with ids := (s'.ids.next "edge" s'.graph.usedIds).2 })
  /-- Both change and have drawn no id. -/
  | changed {after after' : Store} : (r.Steady after → Likeness r after after') →
      after.ids = s.ids → after'.ids = s'.ids →
      Lockstep R K r s s' (.ok none, after) (.ok none, after')
  /-- Both create something under the id that they draw. -/
  | created {after after' : Store} (stem : String) :
      ((r.withId (s.drawn stem) (s'.drawn stem)).Steady after →
        Likeness (r.withId (s.drawn stem) (s'.drawn stem)) after after') →
      after.ids = (s.ids.next stem s.graph.usedIds).2 →
      after'.ids = (s'.ids.next stem s'.graph.usedIds).2 →
      Lockstep R K r s s' (.ok (some (s.drawn stem)), after)
        (.ok (some (s'.drawn stem)), after')

/-- The ends of an edge that is planned are nodes. -/
theorem EdgePlan.ends_mem {replacing : Option String} {edge : Edge} {plan : EdgePlan}
    (hplan : ofEdge registry g replacing edge = .ok plan) :
    edge.source ∈ g.nodes.map Node.id ∧ edge.target ∈ g.nodes.map Node.id := by
  obtain ⟨_, _, _, hsource, htarget, -⟩ := ofEdge_eq_ok_iff.mp hplan
  obtain ⟨hsource, hsourceId⟩ := Graph.mem_of_node? hsource
  obtain ⟨htarget, htargetId⟩ := Graph.mem_of_node? htarget
  exact ⟨hsourceId ▸ List.mem_map_of_mem hsource, htargetId ▸ List.mem_map_of_mem htarget⟩

namespace Likeness

/-- A new node, and the variable of its output where it has one. -/
theorem lockstep_added (h : Likeness r s s') {kind : String} {payload : Payload}
    {scope : Option Scope} (output : Option Output)
    (hcheck : Placement.check s.registry s.graph.nodes none kind payload scope = .ok ())
    (hcheck' : Placement.check s'.registry s'.graph.nodes none (r.kinds kind) payload
      (scope.map r.scope) = .ok ())
    (hinsert : ∀ o, output = some o →
      ∃ vars, s.graph.vars.insert (Edit.outputVariable o "") = .ok vars)
    (hinsert' : ∀ o, output = some o →
      ∃ vars, s'.graph.vars.insert (Edit.outputVariable o "") = .ok vars) :
    Lockstep R K r s s'
      (.ok (some (s.drawn "node")),
        (s.withNode kind payload scope).withOutput output (s.drawn "node"))
      (.ok (some (s'.drawn "node")),
        (s'.withNode (r.kinds kind) payload (scope.map r.scope)).withOutput output
          (s'.drawn "node")) := by
  have hsound : ((s.withNode kind payload scope).withOutput output (s.drawn "node")).Sound :=
    (Change.added output hcheck hinsert).sound h.builtins h.sound
  have hsound' : ((s'.withNode (r.kinds kind) payload (scope.map r.scope)).withOutput output
      (s'.drawn "node")).Sound :=
    (Change.added output hcheck' hinsert').sound h.builtins' h.sound'
  -- the owner of the new node is there, so its id goes where it went
  have hscope : scope.map (r.withId (s.drawn "node") (s'.drawn "node")).scope =
      scope.map r.scope := by
    refine Option.map_congr fun o ho => ?_
    subst ho
    rw [Placement.check_eq_ok_iff h.builtins h.sound.graph.nested.distinct,
      withoutMoving_none] at hcheck
    obtain ⟨owner, hmem, hid, -⟩ := hcheck.exists_owner
    rw [Recast.scope, Recast.scope, ← hid, h.withDrawn_ids "node" (List.mem_map_of_mem hmem)]
  have hadded hsteady := (h.withDrawn "node").added (r.withId_ids_self _ _) output hsteady hsound
    (by rw [hscope]; exact hsound')
  rw [hscope] at hadded
  exact .created "node" hadded (by cases output <;> rfl) (by cases output <;> rfl)

/-- **Adding a node** under the recasting. -/
theorem perform_addNode (h : Likeness r s s')
    (hfits : r.Fits R K s.registry s'.registry s.graph.nodes) (kind : String) (payload : Payload)
    (scope : Option Scope) (hscope : ∀ o, scope = some o → R o.owner (r.ids o.owner)) :
    Lockstep R K r s s' (s.perform (.addNode kind payload scope))
      (s'.perform (.addNode (r.kinds kind) payload (scope.map r.scope))) := by
  have hcheck := hfits.check_alike none kind payload scope hscope
  rw [Option.map_none, ← h.nodes] at hcheck
  rw [Store.perform, Store.perform, Operation.edit, Operation.edit, Edit.run_map, Edit.run_map,
    Edit.run_addNode, Edit.run_addNode]
  generalize hanswer : Placement.check s.registry s.graph.nodes none kind payload scope = answer
    at hcheck
  generalize hanswer' : Placement.check s'.registry s'.graph.nodes none (r.kinds kind) payload
    (scope.map r.scope) = answer' at hcheck
  cases hcheck with
  | error he => exact .refused (.structural he)
  | ok _ =>
    exact h.lockstep_added none hanswer hanswer' (fun _ ho => (by cases ho))
      fun _ ho => (by cases ho)

/-- **Adding a step** under the recasting. -/
theorem perform_addStep (h : Likeness r s s')
    (hfits : r.Fits R K s.registry s'.registry s.graph.nodes) (step : Step)
    (scope : Option Scope) (hscope : ∀ o, scope = some o → R o.owner (r.ids o.owner)) :
    Lockstep R K r s s' (s.perform (.addStep step scope))
      (s'.perform (.addStep step (scope.map r.scope))) := by
  have hpayload : Alike (EditError.Alike R K) Eq (Edit.stepPayload s.graph step)
      (Edit.stepPayload s'.graph step) := h.graph ▸ stepPayload_alike s.graph step
  rw [Store.perform, Store.perform, Operation.edit, Operation.edit, Edit.run_map, Edit.run_map,
    Edit.run_addStep, Edit.run_addStep]
  generalize hready : Edit.stepPayload s.graph step = ready at hpayload
  generalize hready' : Edit.stepPayload s'.graph step = ready' at hpayload
  cases hpayload with
  | error he => exact .refused he
  | @ok payload _ hsame =>
    subst hsame
    have hcheck := hfits.check_alike none Builtin.action.tag payload scope hscope
    rw [Option.map_none, ← h.nodes, r.kinds_tag] at hcheck
    dsimp only
    generalize hanswer : Placement.check s.registry s.graph.nodes none Builtin.action.tag payload
      scope = answer at hcheck
    generalize hanswer' : Placement.check s'.registry s'.graph.nodes none Builtin.action.tag
      payload (scope.map r.scope) = answer' at hcheck
    cases hcheck with
    | error he => exact .refused (.structural he)
    | ok _ =>
      rw [← r.kinds_tag .action] at hanswer'
      have hadded := h.lockstep_added (R := R) (K := K) step.output? hanswer hanswer'
        (fun _ => Edit.exists_insert_of_stepPayload hready)
        fun _ => Edit.exists_insert_of_stepPayload hready'
      rw [r.kinds_tag] at hadded
      exact hadded

/-- **Removing a node** under the recasting. -/
theorem perform_removeNode (h : Likeness r s s') (id : String) (hid : R id (r.ids id)) :
    Lockstep R K r s s' (s.perform (.removeNode id)) (s'.perform (.removeNode (r.ids id))) := by
  have hfind := h.node?_eq id
  rw [Store.perform, Store.perform, Operation.edit, Operation.edit, Edit.run_map, Edit.run_map,
    Edit.run_removeNode, Edit.run_removeNode, hfind]
  cases hnode : s.graph.node? id with
  | none => exact .refused (.structural (.nodeNotFound hid))
  | some n =>
    rw [hnode] at hfind
    exact .changed (fun _ => h.removed id ((Change.removed hnode).sound h.builtins h.sound)
      ((Change.removed hfind).sound h.builtins' h.sound')) rfl rfl

/-- Drawing a node elsewhere under the recasting. -/
theorem perform_moveNode (h : Likeness r s s') (id : String) (position : Position)
    (hid : R id (r.ids id)) :
    Lockstep R K r s s' (s.perform (.moveNode id position))
      (s'.perform (.moveNode (r.ids id) position)) := by
  have hfind := h.node?_eq id
  rw [Store.perform, Store.perform, Operation.edit, Operation.edit, Edit.run_map, Edit.run_map,
    Edit.run_moveNode, Edit.run_moveNode, hfind]
  cases hnode : s.graph.node? id with
  | none => exact .refused (.structural (.nodeNotFound hid))
  | some n =>
    rw [hnode] at hfind
    exact .changed (fun _ => h.redrawn id position ((Change.redrawn position hnode).sound h.builtins h.sound)
      ((Change.redrawn position hfind).sound h.builtins' h.sound')) rfl rfl

/-- **Drawing an edge** under the recasting. -/
theorem perform_connect (h : Likeness r s s')
    (hfits : r.Fits R K s.registry s'.registry s.graph.nodes) (source target : String)
    (handle : Handle) (hsource : R source (r.ids source)) (htarget : R target (r.ids target)) :
    Lockstep R K r s s' (s.perform (.connect source target handle))
      (s'.perform (.connect (r.ids source) (r.ids target) handle)) := by
  have hplans : Alike (EditError.Alike R K) _
      (EdgePlan.ofEdge s.registry s.graph none ⟨s.drawn "edge", source, target, handle⟩)
      (EdgePlan.ofEdge s'.registry (r.graph s.graph) none
        ⟨s'.drawn "edge", r.ids source, r.ids target, handle⟩) :=
    hfits.ofEdge_alike h.sound.graph none rfl rfl rfl hsource htarget
  rw [← h.graph] at hplans
  rw [Store.perform, Store.perform, Operation.edit, Operation.edit, Edit.run_map, Edit.run_map,
    Edit.run_connect, Edit.run_connect]
  simp only [Store.drawn] at hplans
  dsimp only
  cases hplan : EdgePlan.ofEdge s.registry s.graph none
      ⟨(s.ids.next "edge" s.graph.usedIds).1, source, target, handle⟩ with
  | error e =>
    obtain ⟨e', hplan', he⟩ := (hplan ▸ hplans).exists_error
    rw [hplan']
    exact .refusedEdge he
  | ok plan =>
    -- both ends are there, so the new id is none of theirs, and the plan can be recast with it
    have hedge : (r.withId (s.drawn "edge") (s'.drawn "edge")).edge
        ⟨s.drawn "edge", source, target, handle⟩ =
          ⟨s'.drawn "edge", r.ids source, r.ids target, handle⟩ := by
      obtain ⟨hsourceMem, htargetMem⟩ := EdgePlan.ends_mem hplan
      rw [Recast.edge, h.withDrawn_ids "edge" hsourceMem, h.withDrawn_ids "edge" htargetMem,
        Recast.withId_ids_self]
    have hnew := h.withDrawn "edge"
    have hplans' := hnew.fits_trivially.ofEdge_alike hnew.sound.graph none
      (congrArg Edge.source hedge.symm) (congrArg Edge.target hedge.symm) rfl trivial trivial
    rw [← hnew.graph, Option.map_none] at hplans'
    obtain ⟨plan', hplan', hsame⟩ := (hplan ▸ hplans').exists_ok
    subst hsame
    have hafter hsteady := (hnew.setIds (s.ids.next "edge" s.graph.usedIds).2
      (s'.ids.next "edge" s'.graph.usedIds).2).planned none
        ⟨s.drawn "edge", source, target, handle⟩ plan hsteady
        ((Change.connected _ rfl hplan).sound h.builtins h.sound)
        (by rw [hedge]; exact (Change.connected _ rfl hplan').sound h.builtins' h.sound')
    rw [hedge] at hafter
    simp only [Store.drawn] at hplan'
    rw [hplan']
    exact .created "edge" hafter rfl rfl

/-- **Moving an edge** under the recasting. -/
theorem perform_reconnect (h : Likeness r s s')
    (hfits : r.Fits R K s.registry s'.registry s.graph.nodes) (id source target : String)
    (handle : Handle) (hid : R id (r.ids id)) (hsource : R source (r.ids source))
    (htarget : R target (r.ids target)) :
    Lockstep R K r s s' (s.perform (.reconnect id source target handle))
      (s'.perform (.reconnect (r.ids id) (r.ids source) (r.ids target) handle)) := by
  have hfind := h.edge?_eq id
  rw [Store.perform, Store.perform, Operation.edit, Operation.edit, Edit.run_map, Edit.run_map,
    Edit.run_reconnect, Edit.run_reconnect, hfind]
  cases hold : s.graph.edge? id with
  | none => exact .refused (.structural (.edgeNotFound hid))
  | some old =>
    rw [hold] at hfind
    have hplans : Alike (EditError.Alike R K) _
        (EdgePlan.ofEdge s.registry s.graph (some id) ⟨id, source, target, handle⟩)
        (EdgePlan.ofEdge s'.registry (r.graph s.graph) (some (r.ids id))
          ⟨r.ids id, r.ids source, r.ids target, handle⟩) :=
      hfits.ofEdge_alike h.sound.graph (some id) rfl rfl rfl hsource htarget
    rw [← h.graph] at hplans
    dsimp only [Option.map_some]
    cases hplan : EdgePlan.ofEdge s.registry s.graph (some id) ⟨id, source, target, handle⟩ with
    | error e =>
      obtain ⟨e', hplan', he⟩ := (hplan ▸ hplans).exists_error
      rw [hplan']
      exact .refused he
    | ok plan =>
      obtain ⟨plan', hplan', hsame⟩ := (hplan ▸ hplans).exists_ok
      subst hsame
      rw [hplan']
      exact .changed (fun hsteady => h.planned (some id) ⟨id, source, target, handle⟩ plan hsteady
        ((Change.reconnected hold hplan).sound h.builtins h.sound)
        ((Change.reconnected hfind hplan').sound h.builtins' h.sound')) rfl rfl

/-- **Deleting an edge** under the recasting. -/
theorem perform_disconnect (h : Likeness r s s')
    (hfits : r.Fits R K s.registry s'.registry s.graph.nodes) (id : String)
    (hid : R id (r.ids id)) :
    Lockstep R K r s s' (s.perform (.disconnect id)) (s'.perform (.disconnect (r.ids id))) := by
  have hfind := h.edge?_eq id
  rw [Store.perform, Store.perform, Operation.edit, Operation.edit, Edit.run_map, Edit.run_map,
    Edit.run_disconnect, Edit.run_disconnect, hfind]
  cases hedge : s.graph.edge? id with
  | none => exact .refused (.structural (.edgeNotFound hid))
  | some edge =>
    rw [hedge] at hfind
    have hend := h.sound.graph.ends edge (Graph.mem_of_edge? hedge).1
    have hnode : s'.graph.node? (r.edge edge).target = (s.graph.node? edge.target).map r.node :=
      h.node?_eq edge.target
    dsimp only [Option.map_some]
    rw [hnode]
    cases htarget : s.graph.node? edge.target with
    | none => exact .refused (.structural (.nodeNotFound (hfits.ids_of_mem hend.2)))
    | some target =>
      rw [htarget] at hnode
      have hchecks : Alike (StructureError.Alike R K) Eq
          (Placement.check s.registry s.graph.nodes (some target.id) target.kind target.payload
            none)
          (Placement.check s'.registry s'.graph.nodes (some (r.node target).id)
            (r.node target).kind (r.node target).payload none) :=
        h.nodes ▸ hfits.check_alike (some target.id) target.kind target.payload none
          fun _ hscope => (by cases hscope)
      dsimp only [Option.map_some]
      cases hcheck : Placement.check s.registry s.graph.nodes (some target.id) target.kind
          target.payload none with
      | error e =>
        obtain ⟨e', hcheck', he⟩ := (hcheck ▸ hchecks).exists_error
        rw [hcheck']
        exact .refused (.structural he)
      | ok _ =>
        obtain ⟨_, hcheck', -⟩ := (hcheck ▸ hchecks).exists_ok
        rw [hcheck']
        exact .changed (fun hsteady => h.released edge.target id hsteady
          ((Change.disconnected hedge htarget hcheck).sound h.builtins h.sound)
          ((Change.disconnected hfind hnode hcheck').sound h.builtins' h.sound')) rfl rfl

/-- **Registering a variable** under the recasting of its producer. -/
theorem perform_registerVariable (h : Likeness r s s') (name displayName producer : String)
    (hproducer : R producer (r.ids producer)) :
    Lockstep R K r s s' (s.perform (.registerVariable name displayName producer))
      (s'.perform (.registerVariable name displayName (r.ids producer))) := by
  have hfind := h.node?_eq producer
  rw [Store.perform, Store.perform, Operation.edit, Operation.edit, Edit.run_map, Edit.run_map,
    Edit.run_registerVariable, Edit.run_registerVariable, hfind]
  cases hnode : s.graph.node? producer with
  | none => exact .refused (.structural (.nodeNotFound hproducer))
  | some n =>
    rw [hnode] at hfind
    have hinserts := insert_vars_alike (r := r) s.graph.vars ⟨name, displayName, producer⟩
      ⟨name, displayName, r.ids producer⟩ rfl
    rw [← Recast.graph_vars, ← h.graph] at hinserts
    dsimp only [Option.map_some]
    cases hinsert : s.graph.vars.insert ⟨name, displayName, producer⟩ with
    | error e =>
      obtain ⟨e', hinsert', rfl⟩ := (hinsert ▸ hinserts).exists_error
      rw [hinsert']
      exact .refused (.naming e)
    | ok vars =>
      obtain ⟨vars', hinsert', rfl, hvars'⟩ := (hinsert ▸ hinserts).exists_ok
      rw [hinsert']
      rw [h.graph, Recast.graph_vars] at hvars'
      have hrecast := hvars'.trans (Recast.appended_vars _ ⟨name, displayName, producer⟩)
      exact .changed (fun _ => h.renamed hrecast
        (by rw [h.graph, Recast.graph_assistants])
        ((Change.variableRegistered hinsert hnode).sound h.builtins h.sound)
        ((Change.variableRegistered hinsert' hfind).sound h.builtins' h.sound')) rfl rfl

/-- Registering an assistant, who is not recast. -/
theorem perform_registerAssistant (h : Likeness r s s') (name model personality : String) :
    Lockstep R K r s s' (s.perform (.registerAssistant name model personality))
      (s'.perform (.registerAssistant name model personality)) := by
  have hassistants : s'.graph.assistants = s.graph.assistants := by
    rw [h.graph, Recast.graph_assistants]
  rw [Store.perform, Store.perform, Operation.edit, Edit.run_map, Edit.run_map,
    Edit.run_registerAssistant, Edit.run_registerAssistant, hassistants]
  cases hinsert : s.graph.assistants.insert ⟨name, model, personality⟩ with
  | error e => exact .refused (.naming e)
  | ok assistants =>
    exact .changed (fun _ => h.renamed (by rw [h.graph, Recast.graph_vars]) rfl
      ((Change.assistantRegistered hinsert).sound h.builtins h.sound)
      ((Change.assistantRegistered (hassistants ▸ hinsert)).sound h.builtins' h.sound')) rfl rfl

/-- **An operation and its recast go in step** in stores that are alike: both
are refused for the same cause, or both change, and what they create gets the
id that each store draws. -/
theorem perform (h : Likeness r s s') (hR : ∀ id ∈ s.graph.usedIds, R id (r.ids id))
    (hK : ∀ tag, K tag (r.kinds tag)) (operation : Operation)
    (hnames : ∀ id ∈ operation.names, R id (r.ids id)) :
    Lockstep R K r s s' (s.perform operation) (s'.perform (operation.recast r)) := by
  have hfits : r.Fits R K s.registry s'.registry s.graph.nodes :=
    h.fits (fun n hn => hR n.id (List.mem_append_left _ (List.mem_map_of_mem hn))) hK
  cases operation with
  | addNode kind payload scope =>
    exact h.perform_addNode hfits kind payload scope fun o ho =>
      hnames o.owner (by simp [ho, Operation.names])
  | addStep step scope =>
    exact h.perform_addStep hfits step scope fun o ho =>
      hnames o.owner (by simp [ho, Operation.names])
  | removeNode id => exact h.perform_removeNode id (hnames id (by simp [Operation.names]))
  | moveNode id position =>
    exact h.perform_moveNode id position (hnames id (by simp [Operation.names]))
  | connect source target handle =>
    exact h.perform_connect hfits source target handle
      (hnames source (by simp [Operation.names])) (hnames target (by simp [Operation.names]))
  | reconnect id source target handle =>
    exact h.perform_reconnect hfits id source target handle
      (hnames id (by simp [Operation.names])) (hnames source (by simp [Operation.names]))
      (hnames target (by simp [Operation.names]))
  | disconnect id => exact h.perform_disconnect hfits id (hnames id (by simp [Operation.names]))
  | registerVariable name displayName producer =>
    exact h.perform_registerVariable name displayName producer
      (hnames producer (by simp [Operation.names]))
  | registerAssistant name model personality =>
    exact h.perform_registerAssistant name model personality

/-- **Stores that are alike compile alike.** -/
theorem compile (h : Likeness r s s') (hR : ∀ n ∈ s.graph.nodes, R n.id (r.ids n.id))
    (hK : ∀ tag, K tag (r.kinds tag)) (comments : Bool) :
    Alike
      (fun report report' => Forall₂ (ConfigurationError.Alike R K) report.errors report'.errors)
      (fun script script' => script.text = script'.text ∧
        Forall₂ (Diagnostic.Alike R K) script.diagnostics script'.diagnostics)
      (s.graph.compile s.registry comments) (s'.graph.compile s'.registry comments) :=
  h.graph ▸ (h.fits hR hK).compile_alike comments

end Likeness

/-! ## The same ids -/

/-- **Two stores with the same ids**, those in use and those to come. -/
structure SameIds (r : Recast) (s s' : Store) : Prop where
  likeness : Likeness r s s'
  ids : r.ids = Equiv.refl String
  source : s.ids = s'.ids

namespace SameIds

theorem same (h : SameIds r s s') (id : String) : id = r.ids id := by
  rw [h.ids, Equiv.refl_apply]

/-- The next id is the same in both. -/
theorem next (h : SameIds r s s') (stem : String) :
    s'.ids.next stem s'.graph.usedIds = s.ids.next stem s.graph.usedIds := by
  rw [h.source, h.likeness.graph, Recast.usedIds_graph, h.ids, Equiv.coe_refl, List.map_id]

/-- **An operation and its recast are answered alike**, with the same id for
what they create, and the ids stay the same as long as numbers keep their
order. -/
theorem perform (h : SameIds r s s') (hK : ∀ tag, K tag (r.kinds tag)) (operation : Operation) :
    Alike (EditError.Alike Eq K) Eq (s.perform operation).1
        (s'.perform (operation.recast r)).1 ∧
      (r.Steady (s.perform operation).2 →
        SameIds r (s.perform operation).2 (s'.perform (operation.recast r)).2) := by
  have hstep := h.likeness.perform (R := Eq) (fun id _ => h.same id) hK operation
    fun id _ => h.same id
  generalize s.perform operation = out at hstep
  generalize s'.perform (operation.recast r) = out' at hstep
  cases hstep with
  | refused he => exact ⟨.error he, fun _ => h⟩
  | refusedEdge he =>
    exact ⟨.error he,
      fun _ => ⟨h.likeness.setIds _ _, h.ids, congrArg Prod.snd (h.next "edge").symm⟩⟩
  | changed hafter hdrawn hdrawn' =>
    exact ⟨.ok rfl, fun hsteady => ⟨hafter hsteady, h.ids, by rw [hdrawn, hdrawn', h.source]⟩⟩
  | created stem hafter hdrawn hdrawn' =>
    have hdraw : s'.drawn stem = s.drawn stem := congrArg Prod.fst (h.next stem)
    rw [hdraw, Recast.withId_self h.ids] at hafter
    exact ⟨.ok (by rw [hdraw]),
      fun hsteady => ⟨hafter hsteady, h.ids, by rw [hdrawn, hdrawn', h.next]⟩⟩

/-- **A run and its recast are answered alike**, as long as numbers keep their
order. -/
theorem performAll (h : SameIds r s s') (hK : ∀ tag, K tag (r.kinds tag))
    (operations : List Operation) (hsteady : r.Steady (s.performAll operations).2) :
    Forall₂ (Alike (EditError.Alike Eq K) Eq) (s.performAll operations).1
        (s'.performAll (operations.map (Operation.recast r))).1 ∧
      SameIds r (s.performAll operations).2
        (s'.performAll (operations.map (Operation.recast r))).2 := by
  induction operations generalizing s s' with
  | nil => exact ⟨.nil, h⟩
  | cons operation rest ih =>
    obtain ⟨hanswer, hafter⟩ := h.perform hK operation
    obtain ⟨hanswers, hlast⟩ := ih (hafter (.of_performAll hsteady)) hsteady
    exact ⟨.cons hanswer hanswers, hlast⟩

end SameIds

end StepGraph
