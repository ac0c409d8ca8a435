import StepGraph.Proofs.Graph.ParentText
import StepGraph.Proofs.Store.Reachable

/-!
# Saving and loading

A graph comes back from its document as it was when every scope is given
back by its text (`Graph.ReadsBack`, `load_ofGraph_iff`): all else that
loading checks holds of a sound graph. Ids without hyphens are enough
(`Graph.HyphenFree.readsBack`), and a run that begins without hyphens comes
to none, since a new node id has none (`Change.hyphenFree`).
-/

namespace StepGraph

variable {registry : Registry} {g : Graph} {store start after : Store} {ids : IdSource}

namespace Graph

/-- **Every scope is given back by its text.** -/
def ReadsBack (g : Graph) : Prop :=
  ∀ n ∈ g.nodes, ∀ scope, n.scope = some scope →
    Scope.parse? (g.nodes.map Node.id).contains scope.parentId = some scope

/-- No node id has a hyphen. -/
def HyphenFree (g : Graph) : Prop :=
  ∀ id ∈ g.nodes.map Node.id, '-' ∉ id.toList

/-! ## The document of a graph -/

@[simp] theorem nodeIds_ofGraph : (Document.ofGraph g).nodeIds = g.nodes.map Node.id := by
  rw [Document.nodeIds, Document.ofGraph, List.map_map]
  rfl

/-- A node comes back when its scope is given back. -/
theorem resolve_ofNode_eq_iff {nodeIds : List String} {n : Node} :
    Document.resolve nodeIds (.ofNode n) = n ↔ ∀ scope, n.scope = some scope →
      Scope.parse? nodeIds.contains scope.parentId = some scope := by
  obtain ⟨id, kind, scope, sequence, position, payload⟩ := n
  cases scope <;> simp [Document.resolve, NodeRecord.ofNode, Node.parentId?]

/-- **The nodes come back** when every scope is given back. -/
theorem resolved_ofGraph_eq_iff : (Document.ofGraph g).resolved = g.nodes ↔ g.ReadsBack := by
  rw [Document.resolved, nodeIds_ofGraph, Document.ofGraph, List.map_map]
  constructor
  · intro h n hn
    rw [← resolve_ofNode_eq_iff]
    exact List.map_inj_left.mp (h.trans (List.map_id _).symm) n hn
  · intro h
    refine (List.map_congr_left fun n hn => ?_).trans (List.map_id _)
    exact resolve_ofNode_eq_iff.mpr (h n hn)

namespace Sound

/-- **The document of a sound graph is well formed** when every scope is
given back. -/
theorem wellFormed_ofGraph (h : g.Sound registry) (hback : g.ReadsBack) :
    (Document.ofGraph g).WellFormed registry := by
  have hnodes : (Document.ofGraph g).resolved = g.nodes := resolved_ofGraph_eq_iff.mpr hback
  refine ⟨by rw [nodeIds_ofGraph]; exact h.ids, ?_, ?_, by rw [nodeIds_ofGraph]; exact h.ends,
    by rw [nodeIds_ofGraph]; exact h.producers, h.vars.distinct, ?_, h.assistants.distinct, ?_, ?_⟩
  · intro record hrecord text htext
    obtain ⟨n, hn, rfl⟩ := List.mem_map.mp hrecord
    obtain ⟨scope, hscope, rfl⟩ := Option.map_eq_some_iff.mp htext
    exact ⟨scope, by rw [nodeIds_ofGraph]; exact hback n hn scope hscope⟩
  · rw [hnodes]
    exact fun n hn => not_inside_self h.nested.distinct (h.nested.grounded n hn)
  · exact fun v hv => Variable.check_eq_ok_iff.mp (h.vars.allowed v hv)
  · exact fun a ha => Assistant.check_eq_ok_iff.mp (h.assistants.allowed a ha)
  · rw [hnodes]
    exact fun n hn hbound => (h.nested.placed n hn).resolve_left hbound

/-- **What loading gives** is the graph that was saved. -/
theorem loaded_ofGraph (h : g.Sound registry) (hback : g.ReadsBack) :
    (Document.ofGraph g).loaded registry ids =
      ⟨.ofGraph g registry ids, Document.unbound registry g.nodes⟩ := by
  rw [Document.loaded, resolved_ofGraph_eq_iff.mpr hback]
  -- a table is its entries with their positions
  have hvars : (⟨g.vars.entries, NameTable.positions g.vars.entries⟩ : VariableTable) = g.vars := by
    rw [← h.vars.index_eq]
  have hassistants : (⟨g.assistants.entries, NameTable.positions g.assistants.entries⟩ :
      AssistantTable) = g.assistants := by
    rw [← h.assistants.index_eq]
  change Loaded.mk (.ofGraph ⟨g.nodes, g.edges, _, _⟩ _ _) _ = _
  rw [Document.ofGraph, hvars, hassistants]

/-- **A sound graph comes back from its document** when every scope is
given back by its text, and only then. -/
theorem load_ofGraph_iff (h : g.Sound registry) (hreg : registry.OnlyBuiltins) :
    (∃ result, (Document.ofGraph g).load registry ids = .ok result ∧ result.store.graph = g) ↔
      g.ReadsBack := by
  constructor
  · rintro ⟨result, hload, hgraph⟩
    obtain ⟨-, rfl⟩ := (Document.load_eq_ok_iff hreg).mp hload
    exact resolved_ofGraph_eq_iff.mp (congrArg Graph.nodes hgraph)
  · intro hback
    refine ⟨_, (Document.load_eq_ok_iff hreg).mpr ⟨h.wellFormed_ofGraph hback, rfl⟩, ?_⟩
    rw [h.loaded_ofGraph hback]
    rfl

/-- Loading the document of a sound graph. -/
theorem load_ofGraph (h : g.Sound registry) (hreg : registry.OnlyBuiltins)
    (hback : g.ReadsBack) :
    (Document.ofGraph g).load registry ids =
      .ok ⟨.ofGraph g registry ids, Document.unbound registry g.nodes⟩ :=
  (Document.load_eq_ok_iff hreg).mpr ⟨h.wellFormed_ofGraph hback, (h.loaded_ofGraph hback).symm⟩

end Sound

/-- **Without hyphens every scope is given back.** -/
theorem HyphenFree.readsBack (hplain : g.HyphenFree) (h : g.Sound registry) : g.ReadsBack :=
  fun n hn scope hscope =>
    Scope.parse?_parentId_of_plain (fun id hid => hplain id (by simpa using hid))
      (by simpa using h.consistent.owner_mem hn hscope)

end Graph

/-! ## Runs without hyphens -/

/-- **No change brings a hyphen.** -/
theorem Change.hyphenFree {answer : Except EditError (Option String)}
    (h : Change store answer after) (hplain : store.graph.HyphenFree) :
    after.graph.HyphenFree := by
  intro id hid
  rcases h.node_id_mem hid with hid | ⟨rfl, -⟩
  · exact hplain id hid
  · exact IdSource.hyphen_not_mem_next (by decide)

/-- A run brings no hyphen. -/
theorem hyphenFree_performAll (h : store.graph.HyphenFree) (operations : List Operation) :
    (store.performAll operations).2.graph.HyphenFree :=
  performAll_induction (P := fun s => s.graph.HyphenFree)
    (fun s operation hs => (perform_change s operation).hyphenFree hs) h operations

/-- **The beginnings without hyphens**: an empty store, or the one of a
document in which no node id has a hyphen. -/
inductive PlainInitial (registry : Registry) : Store → Prop
  | empty (ids : IdSource) : PlainInitial registry (.empty registry ids)
  | loaded {d : Document} {ids : IdSource} {result : Loaded} :
      (∀ record ∈ d.nodes, '-' ∉ record.id.toList) → d.load registry ids = .ok result →
      PlainInitial registry result.store

namespace PlainInitial

theorem initial (h : PlainInitial registry start) : Initial registry start := by
  cases h with
  | empty ids => exact .empty ids
  | loaded _ hload => exact .loaded hload

theorem hyphenFree (hreg : registry.OnlyBuiltins) (h : PlainInitial registry start) :
    start.graph.HyphenFree := by
  cases h with
  | empty ids => exact fun _ hid => (by cases hid)
  | @loaded d ids result hplain hload =>
    obtain ⟨-, rfl⟩ := (Document.load_eq_ok_iff hreg).mp hload
    intro id hid
    obtain ⟨record, hrecord, rfl⟩ := List.mem_map.mp (Document.map_id_resolved ▸ hid)
    exact hplain record hrecord

/-- What a run without hyphens comes to is sound and reads back. -/
theorem performAll (hreg : registry.OnlyBuiltins) (h : PlainInitial registry start)
    (operations : List Operation) :
    (start.performAll operations).2.Sound ∧
      (start.performAll operations).2.registry = registry ∧
      (start.performAll operations).2.graph.ReadsBack := by
  obtain ⟨hsound, hregistry⟩ := sound_performAll hreg (h.initial.sound hreg) operations
  exact ⟨hsound, hregistry,
    (hyphenFree_performAll (h.hyphenFree hreg) operations).readsBack hsound.graph⟩

end PlainInitial

/-- The nodes of unregistered kinds are reported in their order. -/
theorem Document.unbound_eq (registry : Registry) (nodes : List Node) :
    unbound registry nodes =
      (nodes.filter fun n => !registry.contains n.kind).map
        fun n => .unknownKind n.id n.kind := by
  rw [unbound, ← List.filterMap_eq_map, List.filterMap_filter]
  refine List.filterMap_congr fun n _ => ?_
  cases registry.contains n.kind <;> rfl

/-- **Saving and loading gives back the same graph** after every run that
begins without hyphens, and reports the nodes of unregistered kinds. -/
theorem load_ofGraph_of_run (aliases : List (String × String))
    (hstart : PlainInitial (Registry.builtin.withAliases aliases) start)
    (operations : List Operation) (ids : IdSource) :
    ∃ result, (Document.ofGraph (start.performAll operations).2.graph).load
        (Registry.builtin.withAliases aliases) ids = .ok result ∧
      result.store.graph = (start.performAll operations).2.graph ∧
      result.unbound = ((start.performAll operations).2.graph.nodes.filter fun n =>
        !(Registry.builtin.withAliases aliases).contains n.kind).map
        fun n => .unknownKind n.id n.kind := by
  have hreg := Registry.onlyBuiltins_withAliases aliases
  obtain ⟨hsound, hregistry, hback⟩ := hstart.performAll hreg operations
  have hgraph := hsound.graph
  rw [hregistry] at hgraph
  exact ⟨_, hgraph.load_ofGraph hreg hback, rfl, Document.unbound_eq _ _⟩

/-- A run from a document with a node of an unregistered kind. -/
theorem load_ofGraph_withWidget :
    ∃ start, Document.withWidget.load (Registry.builtin.withAliases [("step", "action")])
        ⟨fun _ => 0, 0⟩ = .ok start ∧
      ∃ result,
        (Document.ofGraph (start.store.performAll [.addNode "group" .empty none]).2.graph).load
          (Registry.builtin.withAliases [("step", "action")]) ⟨fun _ => 0, 0⟩ = .ok result ∧
        result.unbound = [.unknownKind "w" "widget"] := by
  obtain ⟨start, h⟩ := Document.exists_load_withWidget
  obtain ⟨result, hload, hgraph, hunbound⟩ := load_ofGraph_of_run [("step", "action")]
    (.loaded (by decide) h) [.addNode "group" .empty none] ⟨fun _ => 0, 0⟩
  refine ⟨start, h, result, hload, ?_⟩
  cases h
  rw [hunbound]
  rfl

/-! ## Ids with hyphens -/

namespace Graph

/-- Another scope of the graph has the same text and a longer owner, so the
text is read as that one. -/
def Overshadowed (g : Graph) (scope : Scope) : Prop :=
  ∃ other : Scope, other.owner ∈ g.nodes.map Node.id ∧ other.parentId = scope.parentId ∧
    scope.owner.length < other.owner.length

/-- A scope with a text of its own is given back. -/
theorem readsBack_iff (h : g.Sound registry) :
    g.ReadsBack ↔ ∀ n ∈ g.nodes, ∀ scope, n.scope = some scope → ¬ g.Overshadowed scope := by
  refine forall₂_congr fun n hn => forall₂_congr fun scope hscope => ?_
  rw [Scope.parse?_parentId_iff (by simpa using h.consistent.owner_mem hn hscope), Overshadowed]
  simp only [List.contains_iff_mem, not_exists, not_and, Nat.not_lt]

/-- Where every scope is given back, no two have one text. -/
theorem ReadsBack.scope_eq (h : g.ReadsBack) {m n : Node} (hm : m ∈ g.nodes) (hn : n ∈ g.nodes)
    (htext : m.parentId? = n.parentId?) : m.scope = n.scope := by
  cases hscope : m.scope with
  | none =>
    rw [Node.parentId?, hscope, Node.parentId?, Option.map_none, eq_comm,
      Option.map_eq_none_iff] at htext
    exact htext.symm
  | some scope =>
    rw [Node.parentId?, hscope, Node.parentId?, Option.map_some, eq_comm,
      Option.map_eq_some_iff] at htext
    obtain ⟨other, hother, hsame⟩ := htext
    rw [hother, ← h m hm scope hscope, ← hsame, h n hn other hother]

end Graph

/-- **When a saved text says the scope** of every node that a run from a
document comes to: when no scope in use is overshadowed, and only then.
Without that two scopes may have one text, and a node comes back in the
scope with the longer owner. -/
theorem parentId_unique_iff (aliases : List (String × String)) {d : Document} {ids : IdSource}
    {result : Loaded} (hload : d.load (Registry.builtin.withAliases aliases) ids = .ok result)
    (operations : List Operation) :
    ((∀ m ∈ (result.store.performAll operations).2.graph.nodes,
        ∀ n ∈ (result.store.performAll operations).2.graph.nodes,
          m.scope ≠ n.scope → m.parentId? ≠ n.parentId?) ∧
      (result.store.performAll operations).2.graph.ReadsBack) ↔
    ∀ n ∈ (result.store.performAll operations).2.graph.nodes, ∀ scope, n.scope = some scope →
      ¬ (result.store.performAll operations).2.graph.Overshadowed scope := by
  have hreg := Registry.onlyBuiltins_withAliases aliases
  obtain ⟨hsound, -⟩ := sound_performAll hreg (Initial.loaded hload |>.sound hreg) operations
  rw [← Graph.readsBack_iff hsound.graph]
  exact and_iff_right_of_imp fun hback m hm n hn hne htext => hne (hback.scope_eq hm hn htext)

/-- A conditional, a group under the id of its first branch, a step in the
group and one that is free. -/
def Document.withNamesake : Document where
  nodes := [⟨"a", "conditional", none, 0, .origin, .empty⟩,
    ⟨"a-if", "group", none, 1, .origin, .empty⟩,
    ⟨"x", "action", none, 2, .origin, .empty⟩,
    ⟨"y", "action", some "a-if", 3, .origin, .empty⟩]
  edges := []
  vars := []
  assistants := []

/-- As it is loaded, no scope of the document is overshadowed. -/
theorem parentId_unique_withNamesake :
    ∃ result, Document.withNamesake.load Registry.builtin ⟨fun _ => 0, 0⟩ = .ok result ∧
      (result.store.performAll []).2.graph.ReadsBack := by
  have hload : Document.withNamesake.load (Registry.builtin.withAliases []) ⟨fun _ => 0, 0⟩ =
      .ok (Document.withNamesake.loaded Registry.builtin ⟨fun _ => 0, 0⟩) := rfl
  refine ⟨_, hload, ((parentId_unique_iff [] hload []).mpr fun n hn scope hscope => ?_).2⟩
  rintro ⟨other, hother, -, hlt⟩
  -- the only scope in use has the longest id for its owner
  have hscopes : ∀ n ∈ Document.withNamesake.resolved, n.scope = none ∨
      n.scope = some ⟨"a-if", .body⟩ := by decide
  obtain hnone | hsome := hscopes n hn
  · cases hscope.symm.trans hnone
  · cases hscope.symm.trans hsome
    have hlengths : ∀ id ∈ Document.withNamesake.nodeIds, id.length ≤ 4 := by decide
    exact absurd (hlengths _ hother) (Nat.not_le_of_lt hlt)

/-- The free step comes into the branch, and is saved under the text of the
group's body. -/
theorem parentId_clash_withNamesake :
    ∃ result, Document.withNamesake.load Registry.builtin ⟨fun _ => 0, 0⟩ = .ok result ∧
      ∃ x ∈ (result.store.performAll [.connect "a" "x" .primary]).2.graph.nodes,
      ∃ y ∈ (result.store.performAll [.connect "a" "x" .primary]).2.graph.nodes,
        x.scope = some ⟨"a", .ifBranch⟩ ∧ y.scope = some ⟨"a-if", .body⟩ ∧
        x.parentId? = y.parentId? ∧
        ¬ (result.store.performAll [.connect "a" "x" .primary]).2.graph.ReadsBack := by
  refine ⟨_, rfl, _, List.mem_of_getElem? (i := 2) rfl, _, List.mem_of_getElem? (i := 3) rfl,
    rfl, rfl, rfl, fun hback => ?_⟩
  exact absurd (hback _ (List.mem_of_getElem? (i := 2) rfl) _ rfl) (by decide)

end StepGraph
