import StepGraph.Document.Load
import StepGraph.Proofs.Graph.Cycle
import StepGraph.Proofs.Graph.Nesting
import StepGraph.Proofs.Names.Table

/-!
# The documents that are loaded

A document is well formed when it could have been saved: its ids are
different, every parent text names a scope, nothing lies inside itself,
edges and variables refer to nodes, names are allowed and different, and
every node whose owner can be asked has a legal place
(`Document.WellFormed`). The checks of loading come in a row, each relying
on those before it. All but the last ask the same whatever the kinds are
(`load_eq_ok_iff_consistent`), and together they accept the well-formed
documents (`load_eq_ok_iff`).
-/

namespace StepGraph

variable {registry : Registry} {d : Document} {nodes : List Node} {n : Node}

/-! ## Well-formed documents -/

namespace Document

/-- The ids of the nodes of a document. -/
def nodeIds (d : Document) : List String :=
  d.nodes.map NodeRecord.id

/-- The node of a record, at the top level where its parent text names no
scope. -/
def resolve (nodeIds : List String) (record : NodeRecord) : Node where
  id := record.id
  kind := record.kind
  scope := record.parentId.bind (Scope.parse? nodeIds.contains)
  sequence := record.sequence
  position := record.position
  payload := record.payload

/-- The nodes of a document. -/
def resolved (d : Document) : List Node :=
  d.nodes.map (resolve d.nodeIds)

/-- **A well-formed document.** -/
structure WellFormed (registry : Registry) (d : Document) : Prop where
  /-- The ids of nodes and edges are different, all together. -/
  ids : (d.nodeIds ++ d.edges.map Edge.id).Nodup
  /-- Every parent text names a scope. -/
  parents : ∀ record ∈ d.nodes, ∀ text, record.parentId = some text →
    ∃ scope, Scope.parse? d.nodeIds.contains text = some scope
  /-- No node lies inside itself. -/
  noCircle : ∀ n ∈ d.resolved, ¬ Inside d.resolved n n
  /-- Both ends of an edge are nodes. -/
  ends : ∀ e ∈ d.edges, e.source ∈ d.nodeIds ∧ e.target ∈ d.nodeIds
  /-- The producer of a variable is a node. -/
  producers : ∀ v ∈ d.vars, v.producer ∈ d.nodeIds
  vars_distinct : (d.vars.map Variable.name).Nodup
  vars_allowed : ∀ v ∈ d.vars,
    Script.isIdentifier v.name = true ∧ Script.isReserved v.name = false
  assistants_distinct : (d.assistants.map Assistant.name).Nodup
  assistants_allowed : ∀ a ∈ d.assistants, ∃ c ∈ a.name.toList, Text.isBlank c = false
  /-- A node has a legal place, unless its owner is of an unregistered kind. -/
  placed : ∀ n ∈ d.resolved, ¬ OwnerUnbound registry d.resolved n →
    LegallyPlaced registry d.resolved n

/-- **A consistent document**: all that a well-formed one is but for the
places of its nodes, which are a matter of kinds. -/
structure Consistent (d : Document) : Prop where
  ids : (d.nodeIds ++ d.edges.map Edge.id).Nodup
  parents : ∀ record ∈ d.nodes, ∀ text, record.parentId = some text →
    ∃ scope, Scope.parse? d.nodeIds.contains text = some scope
  noCircle : ∀ n ∈ d.resolved, ¬ Inside d.resolved n n
  ends : ∀ e ∈ d.edges, e.source ∈ d.nodeIds ∧ e.target ∈ d.nodeIds
  producers : ∀ v ∈ d.vars, v.producer ∈ d.nodeIds
  vars_distinct : (d.vars.map Variable.name).Nodup
  vars_allowed : ∀ v ∈ d.vars,
    Script.isIdentifier v.name = true ∧ Script.isReserved v.name = false
  assistants_distinct : (d.assistants.map Assistant.name).Nodup
  assistants_allowed : ∀ a ∈ d.assistants, ∃ c ∈ a.name.toList, Text.isBlank c = false

/-- A document is well formed when it is consistent and its nodes are where
their kinds allow. -/
theorem wellFormed_iff :
    d.WellFormed registry ↔ d.Consistent ∧
      ∀ n ∈ d.resolved, ¬ OwnerUnbound registry d.resolved n →
        LegallyPlaced registry d.resolved n :=
  ⟨fun h => ⟨⟨h.ids, h.parents, h.noCircle, h.ends, h.producers, h.vars_distinct, h.vars_allowed,
      h.assistants_distinct, h.assistants_allowed⟩, h.placed⟩,
    fun ⟨h, hplaced⟩ => ⟨h.ids, h.parents, h.noCircle, h.ends, h.producers, h.vars_distinct,
      h.vars_allowed, h.assistants_distinct, h.assistants_allowed, hplaced⟩⟩

/-- The store of a document that is well formed, and its nodes of
unregistered kinds. -/
def loaded (d : Document) (registry : Registry) (ids : IdSource) : Loaded where
  store := .ofGraph
    ⟨d.resolved, d.edges, ⟨d.vars, NameTable.positions d.vars⟩,
      ⟨d.assistants, NameTable.positions d.assistants⟩⟩ registry ids
  unbound := unbound registry d.resolved

end Document

/-! ## The single checks -/

namespace Document

/-- No entry is found a second time in a list of different entries that
have not been seen. -/
theorem firstRepeated?_eq_none_iff {seen entries : List String} :
    firstRepeated? seen entries = none ↔ entries.Nodup ∧ ∀ id ∈ entries, id ∉ seen := by
  induction entries generalizing seen with
  | nil => simp [firstRepeated?]
  | cons id rest ih =>
    rw [firstRepeated?, List.nodup_cons, List.forall_mem_cons]
    by_cases hin : id ∈ seen
    · simp [hin]
    · rw [if_neg (by simpa using hin), ih]
      constructor
      · rintro ⟨hrest, hall⟩
        exact ⟨⟨fun hmem => hall id hmem List.mem_cons_self, hrest⟩, hin,
          fun other hother hseen => hall other hother (List.mem_cons_of_mem _ hseen)⟩
      · rintro ⟨⟨hnew, hrest⟩, -, hall⟩
        refine ⟨hrest, fun other hother hseen => ?_⟩
        rcases List.mem_cons.mp hseen with rfl | hseen
        · exact hnew hother
        · exact hall other hother hseen

theorem checkIds_eq_ok_iff :
    d.checkIds = .ok () ↔ (d.nodeIds ++ d.edges.map Edge.id).Nodup := by
  have hnone : firstRepeated? [] (d.nodes.map NodeRecord.id ++ d.edges.map Edge.id) = none ↔
      (d.nodeIds ++ d.edges.map Edge.id).Nodup := by
    rw [firstRepeated?_eq_none_iff, nodeIds]
    simp
  rw [checkIds, ← hnone]
  cases firstRepeated? [] (d.nodes.map NodeRecord.id ++ d.edges.map Edge.id) <;> simp

/-- A parent text names a scope of a known owner. -/
theorem owner_of_parse? {isKnown : String → Bool} {text : String} {scope : Scope}
    (h : Scope.parse? isKnown text = some scope) : isKnown scope.owner = true := by
  rw [Scope.parse?] at h
  split at h
  · rename_i hknown
    cases h
    exact hknown
  · obtain ⟨⟨owner, suffix⟩, -, hsplit⟩ := List.exists_of_findSome?_eq_some h
    dsimp only at hsplit
    split at hsplit
    · rename_i hknown
      obtain ⟨slot, -, rfl⟩ := Option.map_eq_some_iff.mp hsplit
      exact hknown
    · cases hsplit

/-- Resolving records succeeds when every parent text names a scope. -/
theorem nodeOf_eq_ok_iff {nodeIds : List String} {record : NodeRecord} :
    nodeOf nodeIds record = .ok n ↔
      n = resolve nodeIds record ∧ ∀ text, record.parentId = some text →
        ∃ scope, Scope.parse? nodeIds.contains text = some scope := by
  rw [nodeOf, resolve]
  cases record.parentId with
  | none => simp [scopeOf, eq_comm]
  | some text =>
    cases hparse : Scope.parse? nodeIds.contains text with
    | none => simp [scopeOf, hparse]
    | some scope => simp [scopeOf, hparse, eq_comm]

theorem mapM_nodeOf_eq_ok_iff :
    d.nodes.mapM (nodeOf d.nodeIds) = .ok nodes ↔
      nodes = d.resolved ∧ ∀ record ∈ d.nodes, ∀ text, record.parentId = some text →
        ∃ scope, Scope.parse? d.nodeIds.contains text = some scope := by
  rw [Checks.mapM_eq_ok_iff (g := resolve d.nodeIds) fun _ _ h => (nodeOf_eq_ok_iff.mp h).1]
  refine and_congr_right fun _ => forall₂_congr fun record _ => ?_
  rw [nodeOf_eq_ok_iff]
  exact and_iff_right rfl

theorem checkKnown_eq_ok_iff {nodeIds : List String} {id : String} :
    checkKnown nodeIds id = .ok () ↔ id ∈ nodeIds := by
  rw [checkKnown]
  by_cases h : id ∈ nodeIds <;> simp [h]

theorem checkReferences_eq_ok_iff {nodeIds : List String} :
    d.checkReferences nodeIds = .ok () ↔
      (∀ e ∈ d.edges, e.source ∈ nodeIds ∧ e.target ∈ nodeIds) ∧
        ∀ v ∈ d.vars, v.producer ∈ nodeIds := by
  rw [checkReferences, Checks.check_bind_eq_ok_iff, Checks.forM_eq_ok_iff, Checks.forM_eq_ok_iff]
  refine and_congr (forall₂_congr fun e _ => ?_) (forall₂_congr fun v _ => checkKnown_eq_ok_iff)
  rw [Checks.check_bind_eq_ok_iff, checkKnown_eq_ok_iff, checkKnown_eq_ok_iff]

/-! ## Resolved nodes -/

@[simp] theorem map_id_resolved : d.resolved.map Node.id = d.nodeIds := by
  rw [resolved, List.map_map, nodeIds]
  rfl

theorem distinctIds_resolved (h : (d.nodeIds ++ d.edges.map Edge.id).Nodup) :
    DistinctIds d.resolved := by
  rw [DistinctIds, map_id_resolved]
  exact (List.nodup_append.mp h).1

/-- Every owner of a resolved node is there. -/
theorem ownersKnown_resolved : OwnersKnown d.resolved := by
  intro n hn scope hscope
  obtain ⟨record, -, rfl⟩ := List.mem_map.mp hn
  obtain ⟨text, -, hparse⟩ := Option.bind_eq_some_iff.mp hscope
  have howner : scope.owner ∈ d.nodeIds := by simpa using owner_of_parse? hparse
  rw [← map_id_resolved] at howner
  obtain ⟨owner, hmem, hid⟩ := List.mem_map.mp howner
  exact ⟨owner, hmem, hid⟩

/-- Loading asks about the owner of a node what it is. -/
theorem ownerUnbound_iff (hd : DistinctIds nodes) :
    ownerUnbound registry nodes n = true ↔ OwnerUnbound registry nodes n := by
  rw [ownerUnbound, OwnerUnbound]
  constructor
  · intro h
    split at h
    · rename_i owner hfind
      obtain ⟨id, hown, hfind⟩ := Option.bind_eq_some_iff.mp hfind
      obtain ⟨hmem, rfl⟩ := mem_of_find?_id hfind
      exact ⟨owner, ⟨hmem, hown⟩, Option.isNone_iff_eq_none.mp h⟩
    · cases h
  · rintro ⟨owner, ⟨hmem, hown⟩, hnone⟩
    rw [hown, Option.bind_some, hd.find?_eq_some_iff.mpr ⟨hmem, rfl⟩]
    exact Option.isNone_iff_eq_none.mpr hnone

theorem checkPlacements_eq_ok_iff (hreg : registry.OnlyBuiltins) (hd : DistinctIds nodes) :
    checkPlacements registry nodes = .ok () ↔
      ∀ n ∈ nodes, ¬ OwnerUnbound registry nodes n → LegallyPlaced registry nodes n := by
  rw [checkPlacements, Checks.forM_eq_ok_iff]
  refine forall₂_congr fun n _ => ?_
  by_cases h : ownerUnbound registry nodes n = true
  · rw [if_pos h]
    exact ⟨fun _ hnot => absurd ((ownerUnbound_iff hd).mp h) hnot, fun _ => rfl⟩
  · rw [if_neg h, Placement.check_eq_ok_iff hreg hd, LegallyPlaced]
    have hbound : ¬ OwnerUnbound registry nodes n := fun hun => h ((ownerUnbound_iff hd).mpr hun)
    exact ⟨fun hplace _ => hplace, fun hplace => hplace hbound⟩

/-! ## Loading -/

variable {ids : IdSource}

theorem structural_eq_ok_iff {α : Type} {result : Except StructureError α} {a : α} :
    structural result = .ok a ↔ result = .ok a := by
  cases result <;> simp [structural]

theorem naming_eq_ok_iff {α : Type} {result : Except NamingError α} {a : α} :
    naming result = .ok a ↔ result = .ok a := by
  cases result <;> simp [naming]

/-- **A document is loaded when it is consistent and its placements are
accepted**, and then as it is. -/
theorem load_eq_ok_iff_consistent {result : Loaded} :
    d.load registry ids = .ok result ↔
      d.Consistent ∧ checkPlacements registry d.resolved = .ok () ∧
        result = d.loaded registry ids := by
  simp only [load, Checks.bind_eq_ok_iff, structural_eq_ok_iff, naming_eq_ok_iff,
    Checks.pure_eq_ok_iff, NameTable.ofList_eq_ok_iff, Variable.check_eq_ok_iff,
    Assistant.check_eq_ok_iff]
  constructor
  · rintro ⟨⟨⟩, hids, nodes, hnodes, ⟨⟩, hcycles, ⟨⟩, hreferences, vars,
      ⟨hvars, hvarsAllowed, rfl⟩, assistants, ⟨hassistants, hassistantsAllowed, rfl⟩, ⟨⟩, hplaced,
      rfl⟩
    have hids := checkIds_eq_ok_iff.mp hids
    obtain ⟨rfl, hparents⟩ := mapM_nodeOf_eq_ok_iff.mp hnodes
    obtain ⟨hends, hproducers⟩ := checkReferences_eq_ok_iff.mp hreferences
    -- the later checks are about nodes that the earlier ones found to have different ids
    have hd : DistinctIds d.resolved := distinctIds_resolved hids
    exact ⟨⟨hids, hparents, (checkCycles_eq_ok_iff hd ownersKnown_resolved).mp hcycles, hends,
      hproducers, hvars, hvarsAllowed, hassistants, hassistantsAllowed⟩, hplaced, rfl⟩
  · rintro ⟨h, hplaced, rfl⟩
    have hd : DistinctIds d.resolved := distinctIds_resolved h.ids
    exact ⟨(), checkIds_eq_ok_iff.mpr h.ids, d.resolved, mapM_nodeOf_eq_ok_iff.mpr ⟨rfl, h.parents⟩,
      (), (checkCycles_eq_ok_iff hd ownersKnown_resolved).mpr h.noCircle, (),
      checkReferences_eq_ok_iff.mpr ⟨h.ends, h.producers⟩,
      _, ⟨h.vars_distinct, h.vars_allowed, rfl⟩, _,
      ⟨h.assistants_distinct, h.assistants_allowed, rfl⟩, (), hplaced, rfl⟩

/-- **A document is loaded when it is well formed**, and then as it is. -/
theorem load_eq_ok_iff (hreg : registry.OnlyBuiltins) {result : Loaded} :
    d.load registry ids = .ok result ↔ d.WellFormed registry ∧ result = d.loaded registry ids := by
  rw [load_eq_ok_iff_consistent, wellFormed_iff, and_assoc]
  refine and_congr_right fun h => and_congr_left fun _ => ?_
  exact checkPlacements_eq_ok_iff hreg (distinctIds_resolved h.ids)

/-- The nodes of unregistered kinds, in the order of the document. -/
theorem unbound_resolved :
    unbound registry d.resolved =
      (d.nodes.filter fun record => !registry.contains record.kind).map
        fun record => .unknownKind record.id record.kind := by
  rw [unbound, resolved, List.filterMap_map]
  induction d.nodes with
  | nil => rfl
  | cons record rest ih =>
    rw [List.filterMap_cons, ih, List.filter_cons]
    cases h : registry.contains record.kind <;> simp [resolve, h]

/-- **Loading accepts the well-formed documents and no others**, and reports
the nodes of unregistered kinds in the order of the document. -/
theorem load_isOk_iff_wellFormed (aliases : List (String × String)) (d : Document)
    (ids : IdSource) :
    ((∃ result, d.load (Registry.builtin.withAliases aliases) ids = .ok result) ↔
      d.WellFormed (Registry.builtin.withAliases aliases)) ∧
    ∀ result, d.load (Registry.builtin.withAliases aliases) ids = .ok result →
      result.unbound =
        (d.nodes.filter fun record =>
          !(Registry.builtin.withAliases aliases).contains record.kind).map
          fun record => .unknownKind record.id record.kind := by
  have hreg := Registry.onlyBuiltins_withAliases aliases
  refine ⟨⟨?_, fun h => ⟨_, (load_eq_ok_iff hreg).mpr ⟨h, rfl⟩⟩⟩, ?_⟩
  · rintro ⟨result, h⟩
    exact ((load_eq_ok_iff hreg).mp h).1
  · intro result h
    obtain ⟨-, rfl⟩ := (load_eq_ok_iff hreg).mp h
    exact unbound_resolved

/-- A node of an unregistered kind, and a step in a slot that nobody
declares. -/
def withWidget : Document where
  nodes := [⟨"w", "widget", none, 0, .origin, .empty⟩,
    ⟨"a", "step", some "w-if", 0, .origin, .empty⟩]
  edges := [⟨"e", "w", "a", .primary⟩]
  vars := []
  assistants := []

theorem exists_load_withWidget :
    ∃ result, withWidget.load (Registry.builtin.withAliases [("step", "action")])
      ⟨fun _ => 0, 0⟩ = .ok result :=
  ⟨_, rfl⟩

/-- The node of an unregistered kind is reported, and the step is kept. -/
theorem load_isOk_withWidget :
    ∃ result, withWidget.load (Registry.builtin.withAliases [("step", "action")])
        ⟨fun _ => 0, 0⟩ = .ok result ∧
      result.unbound = [.unknownKind "w" "widget"] := by
  obtain ⟨result, h⟩ := exists_load_withWidget
  refine ⟨result, h, ?_⟩
  rw [(load_isOk_iff_wellFormed _ _ _).2 result h]
  rfl

end Document

end StepGraph
