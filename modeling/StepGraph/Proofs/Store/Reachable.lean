import StepGraph.Proofs.Document.Acceptance
import StepGraph.Proofs.Store.Sound

/-!
# Reachable stores

A run begins with an empty store or with that of a document and is made of
operations, refused ones among them. A document that is loaded has a
consistent store (`Document.Consistent.loaded`), and operations keep stores
consistent, so every store of a run is (`Reachable.consistent`), whatever the
kinds of the registry are. Over built-in kinds the same goes for soundness
(`Document.WellFormed.sound`, `Reachable.sound`).
-/

namespace StepGraph

variable {registry : Registry} {store start : Store} {d : Document} {ids : IdSource}

/-- **The stores that a run begins with**: an empty one, or the one of a
document. -/
inductive Initial (registry : Registry) : Store → Prop
  | empty (ids : IdSource) : Initial registry (.empty registry ids)
  | loaded {d : Document} {ids : IdSource} {result : Loaded} :
      d.load registry ids = .ok result → Initial registry result.store

/-- A store that some run comes to. -/
def Reachable (registry : Registry) (store : Store) : Prop :=
  ∃ start operations, Initial registry start ∧ store = (start.performAll operations).2

/-! ## Beginnings -/

/-- The nodes of a consistent document are rooted. -/
theorem Document.Consistent.rooted (h : d.Consistent) : Rooted d.resolved := by
  have hd : DistinctIds d.resolved := distinctIds_resolved h.ids
  refine ⟨hd, ?_⟩
  rw [← checkCycles_eq_ok_iff_grounded hd ownersKnown_resolved,
    checkCycles_eq_ok_iff hd ownersKnown_resolved]
  exact h.noCircle

/-- The nodes of a well-formed document are nested. -/
theorem Document.WellFormed.nested (h : d.WellFormed registry) : Nested registry d.resolved :=
  (wellFormed_iff.mp h).1.rooted.nested fun n hn => Classical.or_iff_not_imp_left.mpr (h.placed n hn)

/-- **The store of a consistent document is consistent.** -/
theorem Document.Consistent.loaded (h : d.Consistent) :
    (d.loaded registry ids).store.Consistent := by
  refine ⟨⟨?_, h.rooted, ?_, ?_, ?_, ?_⟩, fun hexact n hn => Store.sequence_lt_sequenceAfter hn hexact⟩
  · change (d.resolved.map Node.id ++ d.edges.map Edge.id).Nodup
    rw [map_id_resolved]
    exact h.ids
  · change ∀ e ∈ d.edges, e.source ∈ d.resolved.map Node.id ∧ e.target ∈ d.resolved.map Node.id
    rw [map_id_resolved]
    exact h.ends
  · change ∀ v ∈ d.vars, v.producer ∈ d.resolved.map Node.id
    rw [map_id_resolved]
    exact h.producers
  · exact ⟨h.vars_distinct, fun v hv => Variable.check_eq_ok_iff.mpr (h.vars_allowed v hv), rfl⟩
  · exact ⟨h.assistants_distinct,
      fun a ha => Assistant.check_eq_ok_iff.mpr (h.assistants_allowed a ha), rfl⟩

/-- **The store of a well-formed document is sound.** -/
theorem Document.WellFormed.sound (h : d.WellFormed registry) :
    (d.loaded registry ids).store.Sound :=
  (wellFormed_iff.mp h).1.loaded.sound h.nested

/-- An empty store is consistent. -/
theorem Store.consistent_empty : (Store.empty registry ids).Consistent :=
  ⟨⟨List.nodup_nil, .nil, fun _ h => (by cases h), fun _ h => (by cases h),
    NameTable.wellFormed_empty, NameTable.wellFormed_empty⟩, fun _ _ h => (by cases h)⟩

/-- An empty store is sound. -/
theorem Store.sound_empty : (Store.empty registry ids).Sound :=
  consistent_empty.sound .nil

/-- A run begins with a consistent store over its registry. -/
theorem Initial.consistent (h : Initial registry start) :
    start.Consistent ∧ start.registry = registry := by
  cases h with
  | empty ids => exact ⟨Store.consistent_empty, rfl⟩
  | loaded hload =>
    obtain ⟨hdocument, -, rfl⟩ := Document.load_eq_ok_iff_consistent.mp hload
    exact ⟨hdocument.loaded, rfl⟩

/-- A run begins with a sound store over its registry. -/
theorem Initial.sound (hreg : registry.OnlyBuiltins) (h : Initial registry start) :
    start.Sound ∧ start.registry = registry := by
  cases h with
  | empty ids => exact ⟨Store.sound_empty, rfl⟩
  | loaded hload =>
    obtain ⟨hwf, rfl⟩ := (Document.load_eq_ok_iff hreg).mp hload
    exact ⟨hwf.sound, rfl⟩

/-! ## Runs -/

/-- **Reachable stores are consistent**, over any registry. -/
theorem Reachable.consistent (h : Reachable registry store) :
    store.Consistent ∧ store.registry = registry := by
  obtain ⟨start, operations, hstart, rfl⟩ := h
  refine performAll_induction (P := fun s => s.Consistent ∧ s.registry = registry) ?_
    hstart.consistent operations
  rintro s operation ⟨hs, rfl⟩
  have hchange := perform_change s operation
  exact ⟨hchange.consistent hs, hchange.registry_eq⟩

/-- Operations keep stores sound and the registry as it is. -/
theorem sound_performAll (hreg : registry.OnlyBuiltins)
    (h : store.Sound ∧ store.registry = registry) (operations : List Operation) :
    (store.performAll operations).2.Sound ∧
      (store.performAll operations).2.registry = registry := by
  refine performAll_induction (P := fun s => s.Sound ∧ s.registry = registry) ?_ h operations
  rintro s operation ⟨hs, rfl⟩
  exact ⟨hs.perform hreg operation, (perform_change s operation).registry_eq⟩

/-- **Reachable stores are sound.** -/
theorem Reachable.sound (hreg : registry.OnlyBuiltins) (h : Reachable registry store) :
    store.Sound ∧ store.registry = registry := by
  obtain ⟨start, operations, hstart, rfl⟩ := h
  exact sound_performAll hreg (hstart.sound hreg) operations

/-- The nodes of a reachable store are nested. -/
theorem Reachable.nested (hreg : registry.OnlyBuiltins) (h : Reachable registry store) :
    Nested registry store.graph.nodes := by
  obtain ⟨hsound, rfl⟩ := h.sound hreg
  exact hsound.graph.nested

/-- **What holds in every store of a run**, whatever it begins with and
whatever is asked of it: all ids are different, every chain of owners ends
at the top level, every node whose owner can be asked has a legal place,
edges and variables refer to nodes, names are allowed and different, and no node
has reached the next sequence number while the counter stays below `2 ^ 64`. -/
theorem sound_of_run (aliases : List (String × String))
    (hstart : Initial (Registry.builtin.withAliases aliases) start)
    (operations : List Operation) :
    (start.performAll operations).2.Sound ∧
      (start.performAll operations).2.registry = Registry.builtin.withAliases aliases :=
  have hreg := Registry.onlyBuiltins_withAliases aliases
  sound_performAll hreg (hstart.sound hreg) operations

/-- A run that begins with a loaded document, takes a node out of one of an
unregistered kind and is refused to draw the edge again. -/
theorem sound_of_run_withWidget :
    ∃ result, Document.withWidget.load (Registry.builtin.withAliases [("step", "action")])
        ⟨fun _ => 0, 0⟩ = .ok result ∧
      (result.store.performAll [.disconnect "e", .connect "w" "a" .primary]).2.Sound := by
  obtain ⟨result, h⟩ := Document.exists_load_withWidget
  exact ⟨result, h, (sound_of_run [("step", "action")] (.loaded h) _).1⟩

end StepGraph
