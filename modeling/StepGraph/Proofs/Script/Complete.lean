import StepGraph.Proofs.Script.Emission
import StepGraph.Proofs.Store.Reachable

/-!
# Complete scripts

Nothing is lost, repeated or put out of order on the way from a graph to
its script (`Script.Complete`). For the graph of a reachable store that
validates this holds of the script that compiling it gives
(`compile_complete`).
-/

namespace StepGraph

open Generation

/-- **A complete script**: `emit` is what the generator makes of each node,
`walk` the order in which it passes the nodes. -/
structure Script.Complete (setting : Setting) (script : Script) (emit : Node → Fragment)
    (walk : Node → List Node) : Prop where
  /-- The generator ends, from whatever node it is called for. -/
  ends : ∀ n ∈ setting.containment.nodes, Acc (Calls setting) n
  /-- What it makes of a node is made of what it makes of the nodes in the
  declared slots. -/
  emits : Emits setting emit
  /-- It goes in depth. -/
  isWalk : IsWalk setting.registry setting.containment.nodes walk
  /-- Every scope holds its nodes, ordered by sequence number and id. -/
  siblings : ∀ scope,
    (setting.containment.children scope).Pairwise (fun m n => m.precedes n = true) ∧
      ∀ n, n ∈ setting.containment.children scope ↔
        n ∈ setting.containment.nodes ∧ n.scope = scope
  /-- The body is made of the outputs of the top level, one after the other. -/
  body : script.body = String.join (setting.containment.root.map fun n => (emit n).code)
  /-- Nodes are visited in the order of the walk. -/
  visited : script.visits.map Visit.node = setting.containment.root.flatMap walk
  /-- A visited node is skipped for its kind, or compiled with the outputs of
  its slots; none is rejected. -/
  holds : ∀ visit ∈ script.visits, Holds setting emit visit
  /-- What is put into the script for a compiled node is its code, behind its
  comment where comments are asked for. -/
  code : ∀ n bodies code, .compiled n bodies code ∈ script.visits →
    (emit n).code = (if setting.comments then commentLine n.payload.label else "") ++ code
  /-- A skipped node puts nothing into it. -/
  silent : ∀ n, .skipped n ∈ script.visits → (emit n).code = ""
  /-- No kind is called twice for one node. -/
  called_nodup : (script.visits.filterMap Visit.called?).Nodup
  /-- Kinds are called for the live nodes of registered kinds and for no
  others. -/
  called_iff : ∀ n, n ∈ script.visits.filterMap Visit.called? ↔
    n ∈ setting.containment.nodes ∧ Live setting.registry setting.containment.nodes n ∧
      (setting.registry.get? n.kind).isSome
  /-- The diagnostics name the nodes of unregistered kinds as the walk passes
  them. -/
  diagnostics : script.diagnostics =
    ((setting.containment.root.flatMap walk).filter
      fun n => (setting.registry.get? n.kind).isNone).map fun n => .unknownKind n.id n.kind
  /-- The walk passes no node twice. -/
  walk_nodup : (setting.containment.root.flatMap walk).Nodup
  /-- The walk passes the live nodes and no others. -/
  walk_iff : ∀ n, n ∈ setting.containment.root.flatMap walk ↔
    n ∈ setting.containment.nodes ∧ Live setting.registry setting.containment.nodes n

/-- **On nested nodes that validate the generator makes a complete script.** -/
theorem generate_complete {setting : Setting}
    (h : Nested setting.registry setting.containment.nodes)
    (hreg : setting.registry.OnlyBuiltins) (hvalid : Validated setting) :
    (Script.generate setting.registry setting.containment setting.comments).Complete setting
      (nodeFragment setting setting.containment.nodes.length)
      (fun n =>
        (nodeFragment setting setting.containment.nodes.length n).visits.map Visit.node) := by
  set emit := nodeFragment setting setting.containment.nodes.length with hemitDef
  have hemit : Emits setting emit := emits_nodeFragment h
  have hwalk := isWalk_visits hreg hvalid hemit
  have hvisits : (Script.generate setting.registry setting.containment setting.comments).visits =
      setting.containment.root.flatMap fun n => (emit n).visits := by
    rw [Script.generate, graphFragment]
    exact List.flatMap_map ..
  have hvisited : (Script.generate setting.registry setting.containment
      setting.comments).visits.map Visit.node =
      setting.containment.root.flatMap fun n => (emit n).visits.map Visit.node := by
    rw [hvisits, List.map_flatMap]
  have hholds : ∀ visit ∈ (Script.generate setting.registry setting.containment
      setting.comments).visits, Holds setting emit visit := by
    rw [hvisits]
    intro visit hmem
    obtain ⟨n, hroot, hmem⟩ := List.mem_flatMap.mp hmem
    exact holds_of_mem_visits hreg hvalid hemit h n (Containment.mem_children.mp hroot).1 visit hmem
  have hmem {n : Node} := mem_walk_iff (m := n) h hreg hwalk
  have hnodup := walk_nodup h hreg hwalk
  have hknown {visit : Visit} (hvisit : visit ∈ (Script.generate setting.registry
      setting.containment setting.comments).visits) :
      visit.node ∈ setting.containment.nodes := by
    have hwalked := List.mem_map_of_mem (f := Visit.node) hvisit
    rw [hvisited] at hwalked
    exact (hmem.mp hwalked).1
  refine ⟨acc_calls h hreg, hemit, hwalk, ?_, ?_, hvisited, hholds,
    fun n bodies code hvisit => code_of_compiled hemit (hknown hvisit) (hholds _ hvisit),
    fun n hvisit => code_of_skipped hemit (hknown hvisit) (hholds _ hvisit), ?_, ?_, ?_, hnodup,
    fun n => hmem⟩
  · exact fun scope => ⟨Containment.children_sorted h.distinct, fun n => Containment.mem_children⟩
  · rw [Script.generate, graphFragment]
    simp only [Fragment.join, List.map_map]
    rfl
  · rw [filterMap_called? hholds, hvisited]
    exact hnodup.filter _
  · intro n
    rw [filterMap_called? hholds, hvisited, List.mem_filter, hmem, and_assoc]
  · rw [Script.diagnostics, filterMap_diagnostic? hholds, hvisited]

/-- **The graph of a reachable store that validates compiles to a complete
script.** -/
theorem compile_complete (aliases : List (String × String)) {store : Store}
    (h : Reachable (Registry.builtin.withAliases aliases) store) (comments : Bool)
    (hvalid : store.graph.validate (Registry.builtin.withAliases aliases) = .ok ()) :
    ∃ script emit walk,
      store.graph.compile (Registry.builtin.withAliases aliases) comments = .ok script ∧
      script.Complete ⟨Registry.builtin.withAliases aliases, store.graph.containment, comments⟩
        emit walk := by
  have hreg := Registry.onlyBuiltins_withAliases aliases
  have hvalidated : Validated
      ⟨Registry.builtin.withAliases aliases, store.graph.containment, comments⟩ :=
    Graph.validate_eq_ok_iff.mp hvalid
  refine ⟨Script.generate _ store.graph.containment comments, _, _, ?_,
    generate_complete (h.nested hreg) hreg hvalidated⟩
  rw [Graph.compile, hvalid]

/-- A group with a step, and a step in a node of an unregistered kind. -/
def Document.withGroup : Document where
  nodes := [⟨"g", "group", none, 0, .origin, .empty⟩,
    ⟨"a", "step", some "g", 0, .origin, ⟨"first", ["first();\n"], .null⟩⟩,
    ⟨"w", "widget", none, 1, .origin, .empty⟩,
    ⟨"b", "step", some "w", 0, .origin, ⟨"", ["second();"], .null⟩⟩]
  edges := []
  vars := []
  assistants := []

/-- The step is drawn out of the node of an unregistered kind into the group,
and the graph is compiled with comments. -/
theorem compile_complete_withGroup :
    ∃ store, Reachable (Registry.builtin.withAliases [("step", "action")]) store ∧
      ∃ script emit walk,
        store.graph.compile (Registry.builtin.withAliases [("step", "action")]) true = .ok script ∧
        script.body = "// first\nfirst();\nsecond();" ∧
        script.Complete ⟨Registry.builtin.withAliases [("step", "action")],
          store.graph.containment, true⟩ emit walk := by
  obtain ⟨result, hload, hvalid, hbody⟩ : ∃ result,
      Document.withGroup.load (Registry.builtin.withAliases [("step", "action")]) ⟨fun _ => 0, 0⟩ =
        .ok result ∧
      (result.store.performAll [.connect "a" "b" .primary]).2.graph.validate
        (Registry.builtin.withAliases [("step", "action")]) = .ok () ∧
      ((result.store.performAll [.connect "a" "b" .primary]).2.graph.compile
        (Registry.builtin.withAliases [("step", "action")]) true).map Script.body =
          .ok "// first\nfirst();\nsecond();" := ⟨_, rfl, rfl, rfl⟩
  have hreach : Reachable (Registry.builtin.withAliases [("step", "action")])
      (result.store.performAll [.connect "a" "b" .primary]).2 :=
    ⟨result.store, _, .loaded hload, rfl⟩
  obtain ⟨script, emit, walk, hcompile, hcomplete⟩ :=
    compile_complete [("step", "action")] hreach true hvalid
  rw [hcompile] at hbody
  exact ⟨_, hreach, script, emit, walk, hcompile, Except.ok.inj hbody, hcomplete⟩

end StepGraph
