import StepGraph.Proofs.Graph.RecastPlacing
import StepGraph.Proofs.Store.Sound

/-!
# Edits of recast graphs

What an edit asks of a graph is answered alike in the recast graph: the
payload of a step (`stepPayload_alike`) and the plan of an edge
(`Fits.ofEdge_alike`). What it then does to the graph is recast as well,
with the new numbers in the place of the old ones (`graph_without`,
`graph_plan`).
-/

namespace StepGraph

variable {r : Recast} {R K : String → String → Prop} {registry registry' : Registry}
variable {g : Graph}

/-! ## Payloads of steps -/

/-- A template does not look at producers. -/
theorem render_alike (text : String) (vars : VariableTable) :
    Alike (ConfigurationError.Alike R K) Eq (Template.render text vars)
      (Template.render text (r.vars vars)) := by
  have hsame : Template.render text (r.vars vars) = Template.render text vars := rfl
  rw [hsame, Template.render]
  split
  · exact .error (.unknownVariable _)
  · exact .ok rfl

theorem renderOption_alike (text : Option String) (vars : VariableTable) :
    Alike (ConfigurationError.Alike R K) Eq (Step.renderOption text vars)
      (Step.renderOption text (r.vars vars)) := by
  cases text with
  | none => exact .ok rfl
  | some text => exact render_alike text vars

theorem renderHeaders_alike (headers : Headers) (vars : VariableTable) :
    Alike (ConfigurationError.Alike R K) Eq (Step.renderHeaders headers vars)
      (Step.renderHeaders headers (r.vars vars)) := by
  refine (Alike.mapM _ fun header _ => ?_).bind_same fun members => .ok rfl
  exact (render_alike header.2 vars).bind_same fun value => .ok rfl

theorem check_alike (operand : Operand) (vars : VariableTable) :
    Alike (ConfigurationError.Alike R K) Eq (operand.check vars) (operand.check (r.vars vars)) := by
  have hsame : operand.check (r.vars vars) = operand.check vars := rfl
  rw [hsame, Operand.check]
  split
  · split
    · exact .ok rfl
    · exact .error (.unknownVariable _)
  · exact .ok rfl

/-- **The code of a step** does not depend on who produces the variables. -/
theorem fragments_alike (step : Step) (vars : VariableTable) (assistants : AssistantTable) :
    Alike (ConfigurationError.Alike R K) Eq (step.fragments vars assistants)
      (step.fragments (r.vars vars) assistants) := by
  cases step with
  | sendText text => exact (render_alike text vars).bind_same fun text => .ok rfl
  | sendMedia url caption =>
    refine (renderOption_alike caption vars).bind_same fun caption => ?_
    exact (render_alike url vars).bind_same fun url => .ok rfl
  | httpRequest method url headers body output =>
    refine (renderHeaders_alike headers vars).bind_same fun headers => ?_
    refine (renderOption_alike body vars).bind_same fun body => ?_
    exact (render_alike url vars).bind_same fun url => .ok rfl
  | queryAssistant assistant prompt output =>
    rw [Step.fragments, Step.fragments]
    split
    · exact .error (.unknownAssistant _)
    · exact (render_alike prompt vars).bind_same fun prompt => .ok rfl
  | setVariable output value | storeValue key value =>
    exact (check_alike value vars).bind_same fun _ => .ok rfl
  | loadValue | wait | script => exact .ok rfl

/-- **The table of recast variables** takes a name when the table takes it,
and refuses it for the same cause. -/
theorem insert_vars_alike (vars : VariableTable) (v v' : Variable) (hname : v'.name = v.name) :
    Alike Eq (fun result result' => result = vars.appended v ∧ result' = (r.vars vars).appended v')
      (vars.insert v) ((r.vars vars).insert v') := by
  have hnamed : Named.name v' = Named.name v := hname
  have hcheck : Named.check v' = Named.check v := by
    simp only [Named.check, hname]
  have hcontains : (r.vars vars).contains (Named.name v') = vars.contains (Named.name v) :=
    congrArg vars.contains hnamed
  unfold NameTable.insert
  rw [hcheck, hcontains, hnamed]
  cases Named.check v with
  | error error => exact .error rfl
  | ok u =>
    cases vars.contains (Named.name v) with
    | true => exact .error rfl
    | false => exact .ok ⟨rfl, by rw [NameTable.appended, hnamed]⟩

/-- **The payload of a step** is the same in the recast graph. -/
theorem stepPayload_alike (g : Graph) (step : Step) :
    Alike (EditError.Alike R K) Eq (Edit.stepPayload g step)
      (Edit.stepPayload (r.graph g) step) := by
  have hpayload : Alike (ConfigurationError.Alike R K) Eq (step.payload g.vars g.assistants)
      (step.payload (r.vars g.vars) g.assistants) :=
    (fragments_alike step g.vars g.assistants).bind_same fun code => .ok rfl
  rw [Edit.stepPayload, Edit.stepPayload, Recast.graph_vars, Recast.graph_assistants]
  generalize step.payload g.vars g.assistants = answer at hpayload
  generalize step.payload (r.vars g.vars) g.assistants = answer' at hpayload
  cases hpayload with
  | error he => exact .error (.configuration he)
  | ok hsame =>
    subst hsame
    dsimp only
    cases step.output? with
    | none => exact .ok rfl
    | some output =>
      have hinsert : Alike Eq _ (g.vars.insert (Edit.outputVariable output ""))
          ((r.vars g.vars).insert (Edit.outputVariable output "")) :=
        insert_vars_alike g.vars _ _ rfl
      dsimp only
      generalize g.vars.insert (Edit.outputVariable output "") = answer at hinsert
      generalize (r.vars g.vars).insert (Edit.outputVariable output "") = answer' at hinsert
      cases hinsert with
      | error hsame =>
        subst hsame
        exact .error (.naming _)
      | ok _ => exact .ok rfl

/-! ## Plans of edges -/

namespace Recast

/-- A plan for the recast graph. -/
@[simps] def plan (r : Recast) (plan : EdgePlan) : EdgePlan where
  target := r.node plan.target
  scope := plan.scope.map r.scope
  orphan := plan.orphan.map r.node

/-- What is found is found again under its new names. -/
theorem found_alike {α β : Type} {error error' : StructureError}
    (herror : StructureError.Alike R K error error') (value : Option α) (f : α → β) :
    Alike (EditError.Alike R K) (fun a a' => value = some a ∧ a' = f a)
      (Edit.found error value) (Edit.found error' (value.map f)) := by
  cases value with
  | none => exact .error (.structural herror)
  | some a => exact .ok ⟨rfl, rfl⟩

theorem lawful_alike {α β : Type} {V : α → β → Prop} {x : Except StructureError α}
    {y : Except StructureError β} (h : Alike (StructureError.Alike R K) V x y) :
    Alike (EditError.Alike R K) V (Edit.lawful x) (Edit.lawful y) := by
  cases h with
  | error he => exact .error (.structural he)
  | ok hv => exact .ok hv

/-- The scope that an edge gives its target. -/
theorem scopeOf_node (route : Route) (source : Node) (orphan : Option Node) :
    Edit.scopeOf route (r.node source) (orphan.map r.node) =
      (Edit.scopeOf route source orphan).map r.scope := by
  cases route with
  | slot slot => rfl
  | root => rfl
  | sibling =>
    have hid : (orphan.map r.node).map Node.id = (orphan.map Node.id).map r.ids := by
      cases orphan <;> rfl
    have hsame : (orphan.map r.node).map Node.id = some (r.ids source.id) ↔
        orphan.map Node.id = some source.id := by
      rw [hid]
      exact (Option.map_injective r.ids.injective).eq_iff (b := some source.id)
    simp only [Edit.scopeOf, node_id, node_scope, hsame]
    split <;> rfl

namespace Fits

variable (h : r.Fits R K registry registry' g.nodes)
include h

/-- A built-in kind routes a handle as it does, and refuses it under its own
tag. -/
theorem route_alike (b : Builtin) (handle : Handle) :
    Alike (StructureError.Alike R K) Eq (b.kind.route handle) (b.kind.route handle) := by
  cases hroute : b.kind.route handle with
  | ok route => exact .ok rfl
  | error error =>
    obtain rfl : error = .invalidHandle b.tag handle.text := by
      cases b <;> cases handle <;> cases hroute <;> rfl
    exact .error (.invalidHandle _ (h.tag b))

/-- A node of the graph is related to its recast. -/
theorem ids_of_mem {id : String} (hid : id ∈ g.nodes.map Node.id) : R id (r.ids id) := by
  obtain ⟨n, hn, rfl⟩ := List.mem_map.mp hid
  exact h.ids n hn

/-- **The node that falls back** is the recast one. -/
theorem orphanOf_alike (hsound : g.Sound registry) (replacing : Option String) (target : String) :
    Alike (EditError.Alike R K) (fun orphan orphan' => orphan' = orphan.map r.node)
      (EdgePlan.orphanOf registry g replacing target)
      (EdgePlan.orphanOf registry' (r.graph g) (replacing.map r.ids) (r.ids target)) := by
  have hedge : (replacing.map r.ids).bind (r.graph g).edge? =
      (replacing.bind g.edge?).map r.edge := by
    cases replacing with
    | none => rfl
    | some id => exact edge?_graph g id
  rw [EdgePlan.orphanOf, EdgePlan.orphanOf, hedge]
  cases hold : replacing.bind g.edge? with
  | none => exact .ok rfl
  | some old =>
    have hend : old.target ∈ g.nodes.map Node.id := by
      obtain ⟨id, -, hfind⟩ := Option.bind_eq_some_iff.mp hold
      exact (hsound.ends old (Graph.mem_of_edge? hfind).1).2
    simp only [Option.map_some, edge_target, r.ids.injective.eq_iff]
    split
    · exact .ok rfl
    · rw [node?_graph]
      refine (found_alike (.nodeNotFound (h.ids_of_mem hend)) _ r.node).bind ?_
      rintro node _ ⟨-, rfl⟩
      have hcheck := h.check_alike (some node.id) node.kind node.payload none
        fun _ hscope => (by cases hscope)
      exact (lawful_alike hcheck).bind_same fun _ => .ok rfl

/-- **An edge is planned alike** in the recast graph. -/
theorem ofEdge_alike (hsound : g.Sound registry) (replacing : Option String) {edge edge' : Edge}
    (hsource' : edge'.source = r.ids edge.source) (htarget' : edge'.target = r.ids edge.target)
    (hhandle' : edge'.handle = edge.handle) (hsource : R edge.source (r.ids edge.source))
    (htarget : R edge.target (r.ids edge.target)) :
    Alike (EditError.Alike R K) (fun plan plan' => plan' = r.plan plan)
      (EdgePlan.ofEdge registry g replacing edge)
      (EdgePlan.ofEdge registry' (r.graph g) (replacing.map r.ids) edge') := by
  rw [EdgePlan.ofEdge, EdgePlan.ofEdge, hsource', htarget', hhandle', node?_graph, node?_graph]
  refine (found_alike (.nodeNotFound hsource) _ r.node).bind ?_
  rintro source _ ⟨hfindSource, rfl⟩
  refine (found_alike (.nodeNotFound htarget) _ r.node).bind ?_
  rintro target _ ⟨hfindTarget, rfl⟩
  have hsourceMem := (Graph.mem_of_node? hfindSource).1
  have htargetMem := (Graph.mem_of_node? hfindTarget).1
  have hkind : registry'.get? (r.node source).kind = (registry.get? source.kind).map id := by
    rw [node_kind, h.bound, Option.map_id_fun, id]
  rw [hkind]
  refine (found_alike (.invalidHandle _ (h.kinds source.kind)) _ id).bind ?_
  rintro kind _ ⟨hget, rfl⟩
  obtain ⟨b, rfl⟩ := h.builtins _ _ hget
  refine (h.orphanOf_alike hsound replacing edge.target).bind ?_
  rintro orphan _ rfl
  refine (lawful_alike (h.route_alike b edge.handle)).bind_same fun route => ?_
  rw [scopeOf_node]
  have hscope : ∀ s, Edit.scopeOf route source orphan = some s → R s.owner (r.ids s.owner) := by
    intro s hs
    cases route with
    | slot slot =>
      cases hs
      exact h.ids source hsourceMem
    | root => cases hs
    | sibling =>
      rw [Edit.scopeOf] at hs
      split at hs
      · cases hs
      · exact h.ids_of_mem (hsound.consistent.owner_mem hsourceMem hs)
  refine (lawful_alike (checkAcyclic_alike (h.ids target htargetMem) hscope)).bind_same fun _ => ?_
  refine (lawful_alike (h.check_alike (some target.id) target.kind target.payload _
    hscope)).bind_same fun _ => ?_
  exact .ok rfl

end Fits

/-! ## What edits do -/

variable {nodes : List Node}

/-- **Another scope** for the recast node. -/
theorem map_rescope (id : String) (scope : Option Scope) (sequence : Nat) (nodes : List Node) :
    (Edit.rescope id scope sequence nodes).map r.node =
      Edit.rescope (r.ids id) (scope.map r.scope) (r.sequences sequence) (nodes.map r.node) := by
  rw [Edit.rescope, Edit.rescope, List.map_map, List.map_map]
  refine List.map_congr_left fun n _ => ?_
  simp only [Function.comp_apply, node_id, r.ids.injective.eq_iff]
  split <;> rfl

theorem graph_moved (g : Graph) (id : String) (position : Position) :
    r.graph (g.moved id position) = (r.graph g).moved (r.ids id) position := by
  have hnodes : (g.moved id position).nodes.map r.node =
      ((r.graph g).moved (r.ids id) position).nodes := by
    rw [Graph.moved, Graph.moved, graph_nodes, List.map_map, List.map_map]
    refine List.map_congr_left fun n _ => ?_
    simp only [Function.comp_apply, node_id, r.ids.injective.eq_iff]
    split <;> rfl
  rw [Recast.graph, hnodes]
  rfl

/-- Variables are kept by their producers. -/
theorem filter_vars (table : VariableTable) {p q : Variable → Bool}
    (hpq : ∀ v, q (r.entry v) = p v) : (r.vars table).filter q = r.vars (table.filter p) := by
  have hentries : (table.entries.map r.entry).filter q = (table.entries.filter p).map r.entry := by
    rw [List.filter_map, show q ∘ r.entry = p from funext hpq]
  have hpositions : ∀ entries : List Variable,
      NameTable.positions (entries.map r.entry) = NameTable.positions entries := fun entries => by
    rw [NameTable.positions, List.zipIdx_map, List.map_map]
    rfl
  rw [NameTable.filter, vars_entries, hentries, hpositions]
  rfl

theorem appended_vars (table : VariableTable) (v : Variable) :
    (r.vars table).appended (r.entry v) = r.vars (table.appended v) := by
  rw [NameTable.appended, vars_entries, List.length_map]
  simp [Recast.vars, NameTable.appended, Named.name]

theorem map_edges_filter (edges : List Edge) {p q : Edge → Bool}
    (hpq : ∀ e, q (r.edge e) = p e) :
    (edges.map r.edge).filter q = (edges.filter p).map r.edge := by
  rw [List.filter_map, show q ∘ r.edge = p from funext hpq]

/-- **Removing the recast node** removes what lay inside it. -/
theorem graph_without (h : r.KeepsOrder g.nodes) (id : String) :
    r.graph (g.without id) = (r.graph g).without (r.ids id) := by
  have htree : (r.graph g).treeIds (r.ids id) = (g.treeIds id).map r.ids := by
    rw [Graph.treeIds, graph_nodes, descendants_map h, Graph.treeIds, List.map_cons, List.map_map,
      List.map_map]
    rfl
  have hcontains : ∀ other, ((g.treeIds id).map r.ids).contains (r.ids other) =
      (g.treeIds id).contains other := fun other => by
    simp
  have htouches : ∀ e, ((g.treeIds id).map r.ids).any (r.edge e).touches =
      (g.treeIds id).any e.touches := fun e => by
    simp [List.any_map, Function.comp_def, touches_edge]
  have hnodes : (g.nodes.map r.node).filter
      (fun node => !((g.treeIds id).map r.ids).contains node.id) =
        (g.nodes.filter fun node => !(g.treeIds id).contains node.id).map r.node := by
    rw [List.filter_map]
    exact congrArg (List.map r.node) (List.filter_congr fun n _ => congrArg (!·) (hcontains n.id))
  have hedges : (g.edges.map r.edge).filter
      (fun edge => !((g.treeIds id).map r.ids).any edge.touches) =
        (g.edges.filter fun edge => !(g.treeIds id).any edge.touches).map r.edge :=
    map_edges_filter g.edges fun e => congrArg (!·) (htouches e)
  have hvars : (r.vars g.vars).filter
      (fun v => !((g.treeIds id).map r.ids).contains v.producer) =
        r.vars (g.vars.filter fun v => !(g.treeIds id).contains v.producer) :=
    filter_vars g.vars fun v => congrArg (!·) (hcontains v.producer)
  symm
  rw [Graph.without, htree, graph_nodes, graph_edges, Recast.graph_vars, hnodes, hedges, hvars]
  rfl

/-- Deleting the recast edge. -/
theorem graph_released (g : Graph) (target edge : String) (sequence : Nat) :
    r.graph (g.released target edge sequence) =
      (r.graph g).released (r.ids target) (r.ids edge) (r.sequences sequence) := by
  rw [Graph.released, Graph.released, graph_nodes, graph_edges,
    map_edges_filter g.edges (p := fun e => e.id != edge)
      fun e => congrArg (!·) (ids_beq e.id edge)]
  have hnodes := map_rescope (r := r) target none sequence g.nodes
  rw [Option.map_none] at hnodes
  rw [← hnodes]
  rfl

/-- **The recast plan** does to the recast graph what the plan does, where
the numbers that it takes from one counter are recast to those of the other. -/
theorem graph_plan (g : Graph) (plan : EdgePlan) (replacing : Option String) (edge : Edge)
    {counter counter' : Counter} (hfirst : r.sequences counter.number = counter'.number)
    (hsecond : r.sequences counter.next.number = counter'.next.number) :
    r.graph (plan.graph replacing edge counter g) =
      (r.plan plan).graph (replacing.map r.ids) (r.edge edge) counter' (r.graph g) := by
  have hkeep : ∀ e : Edge, (some (r.edge e).id != replacing.map r.ids &&
      (r.edge e).target != (r.node plan.target).id) =
        (some e.id != replacing && e.target != plan.target.id) := fun e => by
    have hid : (some (r.edge e).id == replacing.map r.ids) = (some e.id == replacing) :=
      map_ids_beq (some e.id) replacing
    rw [bne, bne, hid, edge_target, node_id, ids_beq]
    rfl
  have hplaced := map_rescope (r := r) plan.target.id plan.scope counter.number g.nodes
  rw [hfirst] at hplaced
  have hnodes : (plan.nodes counter g.nodes).map r.node =
      (r.plan plan).nodes counter' (g.nodes.map r.node) := by
    rw [EdgePlan.nodes, EdgePlan.nodes, plan_orphan]
    cases plan.orphan with
    | none => exact hplaced
    | some orphan =>
      have hback := map_rescope (r := r) orphan.id none counter.next.number
        (Edit.rescope plan.target.id plan.scope counter.number g.nodes)
      rw [hsecond, hplaced] at hback
      exact hback
  rw [EdgePlan.graph, EdgePlan.graph, graph_nodes, graph_edges, plan_target,
    map_edges_filter g.edges hkeep, ← hnodes]
  simp [Recast.graph]

end Recast

end StepGraph
