import StepGraph.Proofs.Document.RoundTrip
import StepGraph.Proofs.Document.Saved
import StepGraph.Proofs.Store.Origin

/-!
# Saving after a run

What a run comes to is written as text, and the text is loaded again but for
two things that the store keeps and the text does not: a coordinate that is
no finite number is written as `null`, and a configuration may be nested
deeper than the reader goes (`text_loads_iff`). Everything that is checked on
loading holds of every store of a run; the configurations in it are those
that nodes were added with (`content_of_mem_perform`), and reading them again
keeps the values of cases, on which the places of nodes depend.
-/

namespace StepGraph

variable {registry : Registry} {g : Graph} {store : Store} {n : Node} {operation : Operation}

/-! ## Configurations -/

/-- The names in a configuration that a node is added with are different, as
they are in every value that is read. -/
def Operation.DistinctNames : Operation → Prop
  | addNode _ payload _ => payload.config.DistinctNames
  | _ => True

/-- The names in the configuration of a step are different. -/
theorem Step.distinctNames_toJson (step : Step) : step.toJson.DistinctNames := by
  cases step <;> simp [toJson, Json.DistinctNames]

/-- The names in all configurations stay different. -/
theorem distinctNames_performAll (h : ∀ n ∈ store.graph.nodes, n.payload.config.DistinctNames)
    {operations : List Operation} (hnames : ∀ operation ∈ operations, operation.DistinctNames) :
    ∀ n ∈ (store.performAll operations).2.graph.nodes, n.payload.config.DistinctNames := by
  refine content_of_mem_performAll (P := fun _ payload => payload.config.DistinctNames) h ?_
  intro operation hoperation g kind payload hbrings
  have hname := hnames operation hoperation
  rcases hbrings.cases with ⟨scope, rfl⟩ | ⟨step, scope, rfl, -, hpayload⟩
  · exact hname
  · rw [Edit.config_of_stepPayload hpayload]
    exact step.distinctNames_toJson

/-! ## Loading what was saved -/

/-- The text of a store is not read where the record of a node cannot be
read. -/
theorem Store.loadText_text_eq_error (hn : n ∈ store.graph.nodes)
    (h : ¬ (NodeRecord.ofNode n).IsReadable) (registry : Registry) (ids : IdSource) :
    Document.loadText store.text registry ids = .error .unreadable :=
  Document.loadText_text_eq_error (fun hall => h (hall _ (List.mem_map_of_mem hn))) ids

/-- A sound store whose scopes are given back by their texts is loaded from
its text when all its records can be read. -/
theorem Store.loadText_text_isOk_iff (hreg : store.registry.OnlyBuiltins) (h : store.Sound)
    (hback : store.graph.ReadsBack)
    (hnames : ∀ n ∈ store.graph.nodes, n.payload.config.DistinctNames) (ids : IdSource) :
    (∃ result, Document.loadText store.text store.registry ids = .ok result) ↔
      ∀ n ∈ store.graph.nodes, (NodeRecord.ofNode n).IsReadable := by
  have hrecords : ∀ record ∈ (Document.ofGraph store.graph).nodes,
      record.payload.config.DistinctNames := List.forall_mem_map.mpr hnames
  rw [Store.text, Document.loadText_text_isOk_iff hreg (h.graph.wellFormed_ofGraph hback) hrecords]
  exact List.forall_mem_map

/-- **When a saved store can be loaded** with the registry that it was edited
with, after every run from an empty store: when every node is drawn at a
finite position, its configuration is nested no deeper than the reader goes
and its sequence number has 64 bits, and only then. -/
theorem text_loads_iff (aliases : List (String × String)) (ids ids' : IdSource)
    (operations : List Operation) (hnames : ∀ operation ∈ operations, operation.DistinctNames) :
    let registry := Registry.builtin.withAliases aliases
    let store := ((Store.empty registry ids).performAll operations).2
    (∃ result, Document.loadText store.text registry ids' = .ok result) ↔
      ∀ n ∈ store.graph.nodes,
        n.position.IsFinite ∧ n.payload.config.depth ≤ configLevels ∧
          n.sequence < UInt64.size := by
  intro registry store
  have hreg : registry.OnlyBuiltins := Registry.onlyBuiltins_withAliases aliases
  have hstart : PlainInitial registry (.empty registry ids) := .empty ids
  obtain ⟨hsound, hregistry, hback⟩ := hstart.performAll hreg operations
  replace hregistry : store.registry = registry := hregistry
  have hconfigs : ∀ n ∈ store.graph.nodes, n.payload.config.DistinctNames :=
    distinctNames_performAll (fun _ hn => (by cases hn)) hnames
  have hloads := Store.loadText_text_isOk_iff (by rwa [hregistry]) hsound hback hconfigs ids'
  rw [hregistry] at hloads
  refine hloads.trans (forall₂_congr fun n _ => ?_)
  exact ⟨fun h => ⟨h.position, h.config, h.sequence⟩,
    fun ⟨hposition, hconfig, hsequence⟩ => ⟨hposition, hconfig, hsequence⟩⟩

/-- A group that is drawn elsewhere comes back. -/
theorem text_loads_withGroup :
    ∃ result, Document.loadText ((Store.empty (Registry.builtin.withAliases [("box", "group")])
        ⟨Nat.toUInt32, 0⟩).performAll
          [.addNode "box" ⟨"", [], .object [("note", .array [.null])]⟩ none,
            .moveNode "node_00000000" ⟨.ofNat 3, .zero⟩]).2.text
      (Registry.builtin.withAliases [("box", "group")]) ⟨Nat.toUInt32, 0⟩ = .ok result := by
  refine (text_loads_iff [("box", "group")] ⟨Nat.toUInt32, 0⟩ ⟨Nat.toUInt32, 0⟩
    [.addNode "box" ⟨"", [], .object [("note", .array [.null])]⟩ none,
      .moveNode "node_00000000" ⟨.ofNat 3, .zero⟩] ?_).mpr ?_
  · simp [Operation.DistinctNames, Json.DistinctNames]
  · have hnodes : ((Store.empty (Registry.builtin.withAliases [("box", "group")])
        ⟨Nat.toUInt32, 0⟩).performAll
          [.addNode "box" ⟨"", [], .object [("note", .array [.null])]⟩ none,
            .moveNode "node_00000000" ⟨.ofNat 3, .zero⟩]).2.graph.nodes =
        [⟨"node_00000000", "box", none, 0, ⟨.ofNat 3, .zero⟩,
          ⟨"", [], .object [("note", .array [.null])]⟩⟩] := rfl
    rw [hnodes, List.forall_mem_singleton]
    exact ⟨⟨by decide, by decide⟩, by decide, by decide⟩

/-- So many arrays, one inside the other. -/
def Json.nested : Nat → Json
  | 0 => .null
  | levels + 1 => .array [nested levels]

theorem Json.depth_nested (levels : Nat) : (nested levels).depth = levels := by
  induction levels with
  | zero => rfl
  | succ levels ih => rw [nested, depth, depth.depthOfItems, depth.depthOfItems, ih, Nat.max_zero]

/-- **Two saves that are not loaded**, though all that was asked for was done:
one of a group that is drawn at no number, and one of a group with 124 arrays
one inside the other in its configuration. -/
theorem text_unreadable_withGroup :
    let start := Store.empty .builtin ⟨Nat.toUInt32, 0⟩
    let drawn := start.performAll
      [.addNode "group" .empty none, .moveNode "node_00000000" ⟨.nan, .zero⟩]
    let filled := start.performAll [.addNode "group" ⟨"", [], .nested 124⟩ none]
    drawn.1 = [.ok (some "node_00000000"), .ok none] ∧
      filled.1 = [.ok (some "node_00000000")] ∧
      Document.loadText drawn.2.text .builtin start.ids = .error .unreadable ∧
      Document.loadText filled.2.text .builtin start.ids = .error .unreadable := by
  intro start drawn filled
  have hdrawn : ⟨"node_00000000", "group", none, 0, ⟨.nan, .zero⟩, .empty⟩ ∈
      drawn.2.graph.nodes := .head _
  have hfilled : ⟨"node_00000000", "group", none, 0, .origin, ⟨"", [], .nested 124⟩⟩ ∈
      filled.2.graph.nodes := .head _
  refine ⟨rfl, rfl, Store.loadText_text_eq_error hdrawn ?_ _ _,
    Store.loadText_text_eq_error hfilled ?_ _ _⟩
  · exact fun h => absurd h.position.1 (by decide)
  · intro h
    have hdepth : (Json.nested 124).depth ≤ configLevels := h.config
    rw [Json.depth_nested] at hdepth
    exact absurd hdepth (by decide)

end StepGraph
