import StepGraph.Proofs.Document.Acceptance
import StepGraph.Proofs.Graph.RecastPlacing

/-!
# Documents with other tags

Tags may be told by others that stand for the same kinds (`Retags`). What
loading checks before it comes to places has nothing to do with tags, and a
place is judged by what tags stand for. So the document with the other tags is
loaded when the first one is, to the same graph with the other tags, and is
refused for the same cause otherwise (`Retags.load_alike`). A tag that stands
for nothing is told by itself, and the nodes of unregistered kinds are reported
as they were.
-/

namespace StepGraph

variable {f : String → String} {R K : String → String → Prop} {registry registry' : Registry}
variable {nodes : List Node} {r : Recast}

/-! ## Other tags -/

/-- A node with another tag. -/
def Node.retag (f : String → String) (n : Node) : Node :=
  { n with kind := f n.kind }

/-- A graph with other tags. -/
def Graph.retag (f : String → String) (g : Graph) : Graph :=
  { g with nodes := g.nodes.map (Node.retag f) }

/-- A record with another tag. -/
def NodeRecord.retag (f : String → String) (record : NodeRecord) : NodeRecord :=
  { record with kind := f record.kind }

/-- A document with other tags. -/
def Document.retag (f : String → String) (d : Document) : Document :=
  { d with nodes := d.nodes.map (NodeRecord.retag f) }

/-- **Tags told by others**: the other tag stands for what the tag stands for,
and the tag of a built-in kind and one that stands for nothing are told by
themselves. -/
structure Retags (f : String → String) (registry registry' : Registry) : Prop where
  bound : ∀ tag, registry'.get? (f tag) = registry.get? tag
  builtin : ∀ b : Builtin, f b.tag = b.tag
  unbound : ∀ tag, registry.get? tag = none → f tag = tag
  builtins : registry.OnlyBuiltins
  builtins' : registry'.OnlyBuiltins

namespace Recast

/-- The recasting of tags only. -/
def retagging (f : String → String) (h : ∀ b : Builtin, f b.tag = b.tag) : Recast where
  ids := Equiv.refl String
  kinds := f
  sequences := id
  kinds_tag := h

variable (h : ∀ b : Builtin, f b.tag = b.tag)

theorem node_retagging : (retagging f h).node = Node.retag f := by
  funext n
  rw [node, map_scope_of_ids rfl]
  rfl

theorem graph_retagging (g : Graph) : (retagging f h).graph g = g.retag f := by
  rw [graph, node_retagging, map_edge_of_ids rfl, vars, map_entry_of_ids rfl]
  rfl

end Recast

/-- Graphs that differ in their tags are compared by them. -/
theorem Retags.fits (h : Retags f registry registry') (nodes : List Node) :
    (Recast.retagging f h.builtin).Fits Eq (fun kind kind' => kind' = f kind) registry registry'
      nodes := by
  refine ⟨fun _ _ => rfl, fun _ => rfl, h.bound, h.builtins, fun m _ n _ => ?_⟩
  rw [Recast.node_retagging]
  rfl

/-! ## Checks that ask for no kind -/

/-- **The same cause for not loading**, up to ids and kinds. -/
inductive LoadError.Alike (R K : String → String → Prop) : LoadError → LoadError → Prop
  | unreadable : Alike R K .unreadable .unreadable
  | structural {e e' : StructureError} : StructureError.Alike R K e e' →
      Alike R K (.structural e) (.structural e')
  | naming (e : NamingError) : Alike R K (.naming e) (.naming e)

namespace Document

theorem structural_alike {α α' : Type} {V : α → α' → Prop} {x : Except StructureError α}
    {y : Except StructureError α'} (h : Alike (StructureError.Alike R K) V x y) :
    Alike (LoadError.Alike R K) V (structural x) (structural y) := by
  cases h with
  | error he => exact .error (.structural he)
  | ok hv => exact .ok hv

theorem naming_alike {α : Type} (x : Except NamingError α) :
    Alike (LoadError.Alike R K) Eq (naming x) (naming x) := by
  cases x with
  | error e => exact .error (.naming e)
  | ok a => exact .ok rfl

theorem checkIds_alike (d : Document) :
    Alike (StructureError.Alike Eq K) Eq d.checkIds d.checkIds := by
  rw [checkIds]
  split
  · exact .error (.duplicateId rfl)
  · exact .ok rfl

theorem nodeOf_alike (nodeIds : List String) (record : NodeRecord) :
    Alike (StructureError.Alike Eq K) (fun n n' => n' = n.retag f) (nodeOf nodeIds record)
      (nodeOf nodeIds (record.retag f)) := by
  have hscope : Alike (StructureError.Alike Eq K) Eq (scopeOf nodeIds record.parentId)
      (scopeOf nodeIds record.parentId) := by
    unfold scopeOf
    split
    · exact .ok rfl
    · split
      · exact .ok rfl
      · exact .error (.scopeNotFound rfl)
  exact hscope.bind_same fun scope => .ok rfl

/-- **The nodes of a document** have the other tags. -/
theorem mapM_nodeOf_alike (nodeIds : List String) (records : List NodeRecord) :
    Alike (StructureError.Alike Eq K) (fun nodes nodes' => nodes' = nodes.map (Node.retag f))
      (records.mapM (nodeOf nodeIds))
      ((records.map (NodeRecord.retag f)).mapM (nodeOf nodeIds)) := by
  induction records with
  | nil => exact .ok rfl
  | cons record rest ih =>
    rw [List.map_cons, List.mapM_cons, List.mapM_cons]
    refine (nodeOf_alike nodeIds record).bind fun n n' hn => ?_
    refine ih.bind fun nodes nodes' hnodes => .ok ?_
    rw [hn, hnodes, List.map_cons]

theorem ownerIn_retag (nodes : List Node) : ownerIn (nodes.map (Node.retag f)) = ownerIn nodes := by
  funext id
  rw [ownerIn, ← List.map_reverse, List.find?_map, ownerIn, Option.bind_map]
  rfl

theorem checkCycles_alike (nodes : List Node) :
    Alike (StructureError.Alike Eq K) Eq (checkCycles nodes)
      (checkCycles (nodes.map (Node.retag f))) := by
  rw [checkCycles, checkCycles, ownerIn_retag, List.length_map]
  refine Alike.forM (List.forall₂_map_right_iff.mpr (List.forall₂_same.mpr fun n _ => ?_))
  rw [Node.retag]
  dsimp only
  split
  · exact .error (.cyclicContainment rfl rfl)
  · exact .ok rfl

theorem checkKnown_alike (nodeIds : List String) (id : String) :
    Alike (StructureError.Alike Eq K) Eq (checkKnown nodeIds id) (checkKnown nodeIds id) := by
  rw [checkKnown]
  split
  · exact .ok rfl
  · exact .error (.nodeNotFound rfl)

theorem checkReferences_alike (d : Document) (nodeIds : List String) :
    Alike (StructureError.Alike Eq K) Eq (d.checkReferences nodeIds)
      (d.checkReferences nodeIds) := by
  refine (Alike.forM (List.forall₂_same.mpr fun e _ => ?_)).bind_same fun _ => ?_
  · exact (checkKnown_alike nodeIds e.source).bind_same fun _ => checkKnown_alike nodeIds e.target
  · exact Alike.forM (List.forall₂_same.mpr fun v _ => checkKnown_alike nodeIds v.producer)

/-! ## Places -/

/-- Nobody can judge a place among the recast nodes where nobody could. -/
theorem ownerUnbound_recast (h : r.Fits R K registry registry' nodes) (n : Node) :
    ownerUnbound registry' (nodes.map r.node) (r.node n) = ownerUnbound registry nodes n := by
  have hfind : ((r.node n).owner?.bind fun owner =>
      (nodes.map r.node).find? (·.id == owner)) =
        (n.owner?.bind fun owner => nodes.find? (·.id == owner)).map r.node := by
    rw [Recast.owner?_node]
    cases n.owner? with
    | none => rfl
    | some owner => exact Recast.find?_node nodes owner
  rw [ownerUnbound, hfind, ownerUnbound]
  cases n.owner?.bind fun owner => nodes.find? (·.id == owner) with
  | none => rfl
  | some owner => exact congrArg Option.isNone (h.bound owner.kind)

/-- **The places of a document** are judged alike. -/
theorem checkPlacements_alike (h : r.Fits R K registry registry' nodes)
    (hscope : ∀ n ∈ nodes, ∀ s, n.scope = some s → R s.owner (r.ids s.owner)) :
    Alike (StructureError.Alike R K) Eq (checkPlacements registry nodes)
      (checkPlacements registry' (nodes.map r.node)) := by
  rw [checkPlacements, checkPlacements]
  refine Alike.forM (List.forall₂_map_right_iff.mpr (List.forall₂_same.mpr fun n hn => ?_))
  rw [ownerUnbound_recast h]
  split
  · exact .ok rfl
  · exact h.check_alike (some n.id) n.kind n.payload n.scope (hscope n hn)

/-- What is reported stays: a tag that stands for nothing is told by itself. -/
theorem unbound_retag (h : Retags f registry registry') (nodes : List Node) :
    unbound registry' (nodes.map (Node.retag f)) = unbound registry nodes := by
  rw [unbound, List.filterMap_map, unbound]
  refine List.filterMap_congr fun n _ => ?_
  have hcontains : registry'.contains (f n.kind) = registry.contains n.kind :=
    congrArg Option.isSome (h.bound n.kind)
  rw [Function.comp_apply, Node.retag]
  dsimp only
  rw [hcontains]
  by_cases hbound : registry.contains n.kind = true
  · rw [if_pos hbound, if_pos hbound]
  · rw [if_neg hbound, if_neg hbound, h.unbound _ (by simpa [Registry.contains] using hbound)]

end Document

/-! ## Loading -/

/-- A store with other tags, which another registry reads. -/
def Store.retag (f : String → String) (registry : Registry) (s : Store) : Store :=
  { s with graph := s.graph.retag f, registry }

/-- **A document with other tags is loaded alike**: both are loaded, the
second to the store with the other tags, or both are refused for the same
cause. -/
theorem Retags.load_alike (h : Retags f registry registry') (d : Document) (ids : IdSource) :
    Alike (LoadError.Alike Eq fun kind kind' => kind' = f kind)
      (fun loaded loaded' => loaded'.store = loaded.store.retag f registry' ∧
        loaded'.unbound = loaded.unbound)
      (d.load registry ids) ((d.retag f).load registry' ids) := by
  have hids : (d.retag f).nodes.map NodeRecord.id = d.nodes.map NodeRecord.id :=
    List.map_map
  have hcheckIds : (d.retag f).checkIds = d.checkIds := by
    rw [Document.checkIds, hids]
    rfl
  have hreferences : (d.retag f).checkReferences = d.checkReferences := rfl
  rw [Document.load, Document.load, hids, hcheckIds, hreferences]
  refine (Document.structural_alike d.checkIds_alike).bind_same fun _ => ?_
  refine (Document.structural_alike (Document.mapM_nodeOf_alike _ d.nodes)).bind ?_
  rintro nodes _ rfl
  refine (Document.structural_alike (Document.checkCycles_alike nodes)).bind_same fun _ => ?_
  refine (Document.structural_alike (d.checkReferences_alike _)).bind_same fun _ => ?_
  refine (Document.naming_alike _).bind_same fun vars => ?_
  refine (Document.naming_alike _).bind_same fun assistants => ?_
  have hplaces := Document.checkPlacements_alike (h.fits nodes) fun _ _ _ _ => rfl
  rw [Recast.node_retagging] at hplaces
  refine (Document.structural_alike hplaces).bind_same fun _ => .ok ⟨?_, ?_⟩
  · simp only [Store.ofGraph, Store.sequenceAfter, List.map_map]
    rfl
  · exact Document.unbound_retag h nodes

end StepGraph
