import StepGraph.Proofs.Store.MovedOn
import StepGraph.Proofs.Store.Saving

/-!
# Handles that are saved

On the wire a handle is a text, and the values of cases share their texts with
three handles that have fixed ones. A text is always written as it was read,
but a handle is read as it was written only if it is not that of a case whose
value is a fixed text (`Handle.ofText_text_eq_iff`). Edges with such a handle
are drawn: in a run every edge is routed where its target is
(`Edge.Routed`), and a switch takes any value from its cases. Once saved such
an edge leaves from another handle, and leads where its target is not
(`handle_survives_iff`).
-/

namespace StepGraph

variable {registry : Registry} {store : Store} {g : Graph} {nodes : List Node} {e : Edge}
variable {source target : Node} {kind : Kind} {route : Route}

/-! ## Texts of handles -/

namespace Handle

/-- The texts of the handles that are no cases. -/
def fixedTexts : List String := [primary, secondary, defaultBranch].map text

/-- A text that is no fixed one is read as a case. -/
theorem ofText_of_not_mem {t : String} (h : t ∉ fixedTexts) : ofText t = caseBranch t := by
  simp only [fixedTexts, List.map_cons, List.map_nil, text, List.mem_cons, List.not_mem_nil,
    or_false, not_or] at h
  rw [ofText, if_neg h.1, if_neg h.2.1, if_neg h.2.2]

/-- A fixed text is read as a handle that is no case. -/
theorem ofText_of_mem {t : String} (h : t ∈ fixedTexts) :
    ofText t ∈ [primary, secondary, defaultBranch] := by
  obtain ⟨fixed, hfixed, rfl⟩ := List.mem_map.mp h
  simp only [List.mem_cons, List.not_mem_nil, or_false] at hfixed
  rcases hfixed with rfl | rfl | rfl <;> decide

/-- **A handle is read as it was written** unless it is that of a case whose
value is a fixed text. -/
theorem ofText_text_eq_iff {h : Handle} :
    ofText h.text = h ↔ ∀ value, h = caseBranch value → value ∉ fixedTexts := by
  cases h with
  | primary => simp [text, ofText]
  | secondary => simp [text, ofText]
  | defaultBranch => simp [text, ofText]
  | caseBranch value =>
    rw [text]
    constructor
    · rintro heq _ ⟨⟩ hfixed
      simpa [heq] using ofText_of_mem hfixed
    · exact fun h => ofText_of_not_mem (h value rfl)

end Handle

/-! ## Routes of edges -/

/-- The kind of its source has the handle that an edge leaves from. -/
def Edge.Leaves (registry : Registry) (nodes : List Node) (e : Edge) : Prop :=
  ∃ source ∈ nodes, source.id = e.source ∧ ∃ kind route,
    registry.get? source.kind = some kind ∧ kind.route e.handle = .ok route

/-- **An edge is routed where its target is.** A route to a slot or to the root
says where this is, one to a sibling asks for nothing. -/
def Edge.Routed (registry : Registry) (nodes : List Node) (e : Edge) : Prop :=
  ∃ source ∈ nodes, source.id = e.source ∧ ∃ target ∈ nodes, target.id = e.target ∧
    ∃ kind route, registry.get? source.kind = some kind ∧ kind.route e.handle = .ok route ∧
      route.Holds source target

/-- The edge leads to a case whose value is the text of another handle. -/
def Edge.Masked (registry : Registry) (nodes : List Node) (e : Edge) : Prop :=
  ∃ target ∈ nodes, target.id = e.target ∧ registry.builtin? target.kind = some .caseNode ∧
    e.handle = .caseBranch (Builtin.caseValue target.payload) ∧
    Builtin.caseValue target.payload ∈ Handle.fixedTexts

/-- Only a switch has the handle of a case, and it leads to the slot of the
case. -/
theorem Builtin.route_caseBranch_eq_ok_iff {b : Builtin} {value : String} :
    b.kind.route (.caseBranch value) = .ok route ↔
      b = .switch ∧ route = .slot (.caseBranch value) := by
  cases b <;> simp [kind, actionKind, conditionalKind, switchKind, caseKind, groupKind,
    siblingRoute, routeConditional, routeSwitch, bodyRoute, eq_comm]

/-- The fixed handles of a switch lead to no case. -/
theorem Builtin.not_caseBranch_of_route_switch {handle : Handle} {value : String}
    (hfixed : handle ∈ [Handle.primary, .secondary, .defaultBranch])
    (hroute : switch.kind.route handle = .ok route)
    (hscope : target.scope = some ⟨source.id, .caseBranch value⟩) :
    ¬ route.Holds source target := by
  simp only [List.mem_cons, List.not_mem_nil, or_false] at hfixed
  rcases hfixed with rfl | rfl | rfl
  · cases hroute
  · obtain rfl : Route.root = route := Except.ok.inj hroute
    simp [Route.Holds, hscope]
  · obtain rfl : Route.slot .defaultBranch = route := Except.ok.inj hroute
    simp [Route.Holds, hscope]

namespace Edge

/-- An edge is routed where the nodes are read back, and only where it was
before. -/
theorem routed_map_reread_iff :
    e.Routed registry (nodes.map Node.reread) ↔ e.Routed registry nodes := by
  have hholds (source target : Node) (route : Route) :
      route.Holds source.reread target.reread ↔ route.Holds source target := by
    cases route <;> rfl
  constructor
  · rintro ⟨_, hs', hsid, _, ht', htid, kind, route, hkind, hroute, hroutes⟩
    obtain ⟨source, hs, rfl⟩ := List.mem_map.mp hs'
    obtain ⟨target, ht, rfl⟩ := List.mem_map.mp ht'
    exact ⟨source, hs, hsid, target, ht, htid, kind, route, hkind, hroute,
      (hholds source target route).mp hroutes⟩
  · rintro ⟨source, hs, hsid, target, ht, htid, kind, route, hkind, hroute, hroutes⟩
    exact ⟨_, List.mem_map_of_mem hs, hsid, _, List.mem_map_of_mem ht, htid, kind, route, hkind,
      hroute, (hholds source target route).mpr hroutes⟩

/-- **The handle of a case leads to the case**: where an edge is routed from
one, its source is a switch, and its target is in the slot of the case. -/
theorem Routed.scope_of_caseBranch (hreg : registry.OnlyBuiltins) (h : e.Routed registry nodes)
    {value : String} (hhandle : e.handle = .caseBranch value) :
    ∃ source ∈ nodes, source.id = e.source ∧ registry.builtin? source.kind = some .switch ∧
      ∃ target ∈ nodes, target.id = e.target ∧
        target.scope = some ⟨source.id, .caseBranch value⟩ := by
  obtain ⟨source, hs, hsid, target, ht, htid, kind, route, hkind, hroute, hholds⟩ := h
  obtain ⟨b, rfl⟩ := hreg _ _ hkind
  rw [hhandle, Builtin.route_caseBranch_eq_ok_iff] at hroute
  obtain ⟨rfl, rfl⟩ := hroute
  exact ⟨source, hs, hsid, hreg.builtin?_eq_some_iff.mpr hkind, target, ht, htid, hholds⟩

end Edge

namespace Graph

/-- **The edges of a graph that lose their handle** are those to a case whose
value is the text of another one. -/
theorem ofText_text_handle_iff (hreg : registry.OnlyBuiltins) (hnested : Nested registry g.nodes)
    (hrouted : e.Routed registry g.nodes) :
    Handle.ofText e.handle.text = e.handle ↔ ¬ e.Masked registry g.nodes := by
  rw [Handle.ofText_text_eq_iff]
  constructor
  · rintro h ⟨target, -, -, -, hhandle, hfixed⟩
    exact h _ hhandle hfixed
  · intro h value hhandle hfixed
    obtain ⟨source, hs, -, hswitch, target, ht, htid, hscope⟩ :=
      hrouted.scope_of_caseBranch hreg hhandle
    obtain ⟨hcase, rfl⟩ :=
      hnested.case_of_caseBranch hs (hreg.builtin?_eq_some_iff.mp hswitch) ht hscope
    exact h ⟨target, ht, htid, hcase, hhandle, hfixed⟩

/-- **An edge that has lost its handle leads elsewhere.** -/
theorem reread_routed_iff (hreg : registry.OnlyBuiltins) (hd : DistinctIds g.nodes)
    (hrouted : e.Routed registry g.nodes) :
    e.reread.Routed registry g.nodes ↔ Handle.ofText e.handle.text = e.handle := by
  constructor
  · rintro ⟨source, hs, hsid, target, ht, htid, kind, route, hkind, hroute, hholds⟩
    rw [Handle.ofText_text_eq_iff]
    intro value hhandle hfixed
    obtain ⟨source', hs', hsid', hswitch, target', ht', htid', hscope⟩ :=
      hrouted.scope_of_caseBranch hreg hhandle
    obtain rfl := hd.eq hs' hs (hsid'.trans hsid.symm)
    obtain rfl := hd.eq ht' ht (htid'.trans htid.symm)
    obtain rfl : Builtin.switch.kind = kind :=
      Option.some.inj ((hreg.builtin?_eq_some_iff.mp hswitch).symm.trans hkind)
    rw [Edge.reread, hhandle] at hroute
    exact Builtin.not_caseBranch_of_route_switch (Handle.ofText_of_mem hfixed) hroute hscope hholds
  · intro hsame
    rw [Edge.reread, hsame]
    exact hrouted

end Graph

/-! ## Stores that are saved -/

/-- **The nodes and edges that come back** where scopes are given back by
their texts. -/
theorem Store.graph_of_loadText (hreg : registry.OnlyBuiltins) (hback : store.graph.ReadsBack)
    {ids : IdSource} {result : Loaded}
    (hload : Document.loadText store.text registry ids = .ok result) :
    result.store.graph.nodes = store.graph.nodes.map Node.reread ∧
      result.store.graph.edges = store.graph.edges.map Edge.reread := by
  rw [Document.loadText] at hload
  cases hread : Document.ofText? store.text with
  | none =>
    rw [hread] at hload
    cases hload
  | some d =>
    rw [hread] at hload
    obtain ⟨-, rfl⟩ := Document.ofText?_text_eq_some_iff.mp hread
    obtain ⟨-, rfl⟩ := (Document.load_eq_ok_iff hreg).mp hload
    refine ⟨?_, rfl⟩
    calc (Document.ofGraph store.graph).reread.resolved
        = (Document.ofGraph store.graph).resolved.map Node.reread := Document.resolved_reread
      _ = store.graph.nodes.map Node.reread := by rw [Graph.resolved_ofGraph_eq_iff.mpr hback]

/-! ## Runs -/

/-- Every operation leaves edges on handles that the kinds of their sources
have. -/
theorem leaves_perform (hstore : store.Consistent) (hstep : store.graph.InStep store.registry)
    (h : ∀ e ∈ store.graph.edges, e.Leaves store.registry store.graph.nodes)
    (operation : Operation) :
    ∀ e ∈ (store.perform operation).2.graph.edges,
      e.Leaves store.registry (store.perform operation).2.graph.nodes := by
  intro e he
  have hafter := (perform_change store operation).consistent hstore
  have hleaves : e.Leaves store.registry store.graph.nodes := by
    rcases edge_of_mem_perform hstore hstep he with ⟨released, answer, hdraws, hok⟩ | ⟨he, -⟩
    · -- a new edge was planned, so its handle has been asked for
      obtain ⟨plan, replacing, hplan, -⟩ := hdraws.exists_plan hok
      obtain ⟨source, kind, route, hsource, -, hkind, -, hroute, -⟩ :=
        EdgePlan.ofEdge_eq_ok_iff.mp hplan
      obtain ⟨hs, hsid⟩ := Graph.mem_of_node? hsource
      exact ⟨source, hs, hsid, kind, route, hkind, hroute⟩
    · exact h e he
  obtain ⟨source, hs, hsid, kind, route, hkind, hroute⟩ := hleaves
  obtain ⟨source', hs', hsid'⟩ := List.mem_map.mp (hafter.graph.ends e he).1
  have hthere : source'.id ∈ store.graph.nodes.map Node.id :=
    hsid' ▸ hsid ▸ List.mem_map_of_mem hs
  obtain ⟨m, hm, hmid, hsame, -⟩ := exists_of_mem_perform hs' hthere
  obtain rfl := hstore.graph.rooted.distinct.eq hm hs (hmid.trans (hsid'.trans hsid.symm))
  exact ⟨source', hs', hsid', kind, route, hsame ▸ hkind, hroute⟩

/-- What a run keeps for its edges to be routed where their targets are. -/
structure Store.Routes (store : Store) (registry : Registry) : Prop where
  sound : store.Sound
  registry_eq : store.registry = registry
  inStep : store.graph.InStep registry
  leaves : ∀ e ∈ store.graph.edges, e.Leaves registry store.graph.nodes

/-- Every operation keeps it. -/
theorem Store.Routes.perform (hreg : registry.OnlyBuiltins) (h : store.Routes registry)
    (operation : Operation) : (store.perform operation).2.Routes registry := by
  obtain ⟨hsound, rfl, hstep, hleaves⟩ := h
  have hchange := perform_change store operation
  exact ⟨hsound.perform hreg operation, hchange.registry_eq, hchange.inStep hsound hstep,
    leaves_perform hsound.consistent hstep hleaves operation⟩

/-- **In a run every edge is routed where its target is.** -/
theorem routed_performAll (hreg : registry.OnlyBuiltins) (ids : IdSource)
    (operations : List Operation) :
    let g := ((Store.empty registry ids).performAll operations).2.graph
    Nested registry g.nodes ∧ ∀ e ∈ g.edges, e.Routed registry g.nodes := by
  intro g
  have hempty : (Store.empty registry ids).Routes registry :=
    ⟨Store.sound_empty, rfl, Graph.inStep_empty, fun _ he => (by cases he)⟩
  obtain ⟨hsound, hregistry, hstep, hleaves⟩ :=
    performAll_induction (P := fun s => s.Routes registry)
      (fun _ operation hs => hs.perform hreg operation) hempty operations
  have hnested : Nested registry g.nodes := hregistry ▸ hsound.graph.nested
  refine ⟨hnested, fun e he => ?_⟩
  obtain ⟨source, hs, hsid, kind, route, hkind, hroute⟩ := hleaves e he
  obtain ⟨target, ht, htid⟩ := List.mem_map.mp (hsound.graph.ends e he).2
  exact ⟨source, hs, hsid, target, ht, htid, kind, route, hkind, hroute,
    hstep.follows e he source hs hsid target ht htid kind route hkind hroute⟩

/-- **Which handles survive being saved**, after every run from an empty
store. Each edge is routed where its target is. Its handle is read back from
its text unless it leads to a case whose value is the text of another handle,
and then the edge that is loaded is not routed where its target is. -/
theorem handle_survives_iff (aliases : List (String × String)) (ids ids' : IdSource)
    (operations : List Operation) :
    let registry := Registry.builtin.withAliases aliases
    let store := ((Store.empty registry ids).performAll operations).2
    ∀ e ∈ store.graph.edges,
      e.Routed registry store.graph.nodes ∧
      (Handle.ofText e.handle.text = e.handle ↔ ¬ e.Masked registry store.graph.nodes) ∧
      ∀ result, Document.loadText store.text registry ids' = .ok result →
        e.reread ∈ result.store.graph.edges ∧
        (e.reread.Routed registry result.store.graph.nodes ↔
          Handle.ofText e.handle.text = e.handle) := by
  intro registry store e he
  have hreg : registry.OnlyBuiltins := Registry.onlyBuiltins_withAliases aliases
  obtain ⟨hnested, hrouted⟩ := routed_performAll hreg ids operations
  have hrouted : e.Routed registry store.graph.nodes := hrouted e he
  refine ⟨hrouted, Graph.ofText_text_handle_iff hreg hnested hrouted, fun result hload => ?_⟩
  obtain ⟨-, -, hback⟩ := (PlainInitial.empty ids).performAll hreg operations
  obtain ⟨hnodes, hedges⟩ := Store.graph_of_loadText hreg hback hload
  rw [hnodes, hedges, Edge.routed_map_reread_iff]
  exact ⟨List.mem_map_of_mem he, Graph.reread_routed_iff hreg hnested.distinct hrouted⟩

/-- A case of a value. -/
def Payload.ofValue (value : String) : Payload :=
  ⟨"", [], .object [("value", .string value)]⟩

/-- A switch with edges to two cases, the value of one being the text of
another handle. -/
def namesakeCases : List Operation :=
  [.addNode "switch" .empty none,
    .addNode "case" (.ofValue "vip") (some ⟨"node_00000000", .caseBranch "vip"⟩),
    .addNode "case" (.ofValue "default") (some ⟨"node_00000000", .caseBranch "default"⟩),
    .connect "node_00000000" "node_00000001" (.caseBranch "vip"),
    .connect "node_00000000" "node_00000002" (.caseBranch "default")]

/-- The store of the run. -/
def Store.namesakeCases : Store :=
  ((Store.empty .builtin ⟨Nat.toUInt32, 0⟩).performAll StepGraph.namesakeCases).2

/-- The edge to the case with a value of its own. -/
def plainEdge : Edge := ⟨"edge_00000003", "node_00000000", "node_00000001", .caseBranch "vip"⟩

/-- The edge to the other case. -/
def maskedEdge : Edge :=
  ⟨"edge_00000004", "node_00000000", "node_00000002", .caseBranch "default"⟩

theorem graph_namesakeCases :
    Store.namesakeCases.graph.nodes =
        [⟨"node_00000000", "switch", none, 0, .origin, .empty⟩,
          ⟨"node_00000001", "case", some ⟨"node_00000000", .caseBranch "vip"⟩, 3, .origin,
            .ofValue "vip"⟩,
          ⟨"node_00000002", "case", some ⟨"node_00000000", .caseBranch "default"⟩, 4, .origin,
            .ofValue "default"⟩] ∧
      Store.namesakeCases.graph.edges = [plainEdge, maskedEdge] := ⟨rfl, rfl⟩

/-- The store of the run is loaded from its text. -/
theorem exists_loadText_namesakeCases (ids : IdSource) :
    ∃ result, Document.loadText Store.namesakeCases.text .builtin ids = .ok result := by
  have hreg : Registry.builtin.OnlyBuiltins := Registry.onlyBuiltins_builtin
  obtain ⟨hsound, -, hback⟩ :=
    (PlainInitial.empty ⟨Nat.toUInt32, 0⟩).performAll hreg namesakeCases
  have hsound : Store.namesakeCases.Sound := hsound
  have hloads := Store.loadText_text_isOk_iff hreg hsound hback
  rw [graph_namesakeCases.1] at hloads
  refine (hloads ?_ ids).mpr ?_
  · simp [Json.DistinctNames, Payload.ofValue, Payload.empty]
  · intro n hn
    simp only [List.mem_cons, List.not_mem_nil, or_false] at hn
    rcases hn with rfl | rfl | rfl <;> exact ⟨⟨by decide, by decide⟩, by decide, by decide⟩

/-- The edge to the case with a value of its own comes back. -/
theorem handle_survives_namesakeCases :
    plainEdge ∈ Store.namesakeCases.graph.edges ∧
      Handle.ofText plainEdge.handle.text = plainEdge.handle ∧
      ∃ result, Document.loadText Store.namesakeCases.text .builtin ⟨Nat.toUInt32, 0⟩ = .ok result ∧
        plainEdge.reread.Routed .builtin result.store.graph.nodes := by
  have hmem : plainEdge ∈ Store.namesakeCases.graph.edges := graph_namesakeCases.2 ▸ .head _
  obtain ⟨-, -, hloaded⟩ :=
    handle_survives_iff [] ⟨Nat.toUInt32, 0⟩ ⟨Nat.toUInt32, 0⟩ namesakeCases plainEdge hmem
  obtain ⟨result, hload⟩ := exists_loadText_namesakeCases ⟨Nat.toUInt32, 0⟩
  have hsame : Handle.ofText plainEdge.handle.text = plainEdge.handle := by decide
  exact ⟨hmem, hsame, result, hload, (hloaded result hload).2.mpr hsame⟩

/-- **The handle of a case may be lost**: the edge to the other case is saved
as one from the default handle, and is loaded as that. -/
theorem handle_lost_namesakeCases :
    maskedEdge ∈ Store.namesakeCases.graph.edges ∧
      maskedEdge.Routed .builtin Store.namesakeCases.graph.nodes ∧
      Handle.ofText maskedEdge.handle.text ≠ maskedEdge.handle ∧
      ∃ result, Document.loadText Store.namesakeCases.text .builtin ⟨Nat.toUInt32, 0⟩ = .ok result ∧
        maskedEdge.reread ∈ result.store.graph.edges ∧
        ¬ maskedEdge.reread.Routed .builtin result.store.graph.nodes := by
  have hreg : Registry.builtin.OnlyBuiltins := Registry.onlyBuiltins_builtin
  have hmem : maskedEdge ∈ Store.namesakeCases.graph.edges :=
    graph_namesakeCases.2 ▸ .tail _ (.head _)
  obtain ⟨hnested, hrouted⟩ := routed_performAll hreg ⟨Nat.toUInt32, 0⟩ namesakeCases
  obtain ⟨-, -, hback⟩ := (PlainInitial.empty ⟨Nat.toUInt32, 0⟩).performAll hreg namesakeCases
  obtain ⟨result, hload⟩ := exists_loadText_namesakeCases ⟨Nat.toUInt32, 0⟩
  have hlost : Handle.ofText maskedEdge.handle.text ≠ maskedEdge.handle := by decide
  obtain ⟨hnodes, hedges⟩ := Store.graph_of_loadText hreg hback hload
  refine ⟨hmem, hrouted _ hmem, hlost, result, hload, ?_, ?_⟩
  · rw [hedges]
    exact List.mem_map_of_mem hmem
  · rw [hnodes, Edge.routed_map_reread_iff,
      Graph.reread_routed_iff hreg hnested.distinct (hrouted _ hmem)]
    exact hlost

end StepGraph
