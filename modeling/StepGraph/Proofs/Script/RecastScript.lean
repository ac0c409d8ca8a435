import StepGraph.Proofs.Graph.RecastPlacing
import Mathlib.Data.List.Forall2

/-!
# Scripts of recast graphs

A script has no ids in it, and siblings stand in the same order in a recast
graph. So both graphs are refused for the same faults, or both have the same
script and skip the same nodes (`Fits.compile_alike`). What kinds do with a
node is compared first, then the fragments of all nodes by the depth they are
generated to, and the graph at last.
-/

namespace StepGraph

open List (Forall₂)

variable {r : Recast} {R K : String → String → Prop} {registry registry' : Registry}
variable {nodes : List Node} {n : Node}

namespace Recast

/-- The nodes of a list with their recasts. -/
theorem forall₂_map (r : Recast) (nodes : List Node) :
    Forall₂ (fun n n' => n ∈ nodes ∧ n' = r.node n) nodes (nodes.map r.node) :=
  List.forall₂_map_right_iff.mpr (List.forall₂_same.mpr fun _ hn => ⟨hn, rfl⟩)

namespace Fits

section Nodes

variable (h : r.Fits R K registry registry' nodes) (hn : n ∈ nodes)
include h hn

/-! ## Kinds -/

theorem requireFields_alike (fields : List String) :
    Alike (ConfigurationError.Alike R K) Eq (requireFields n fields)
      (requireFields (r.node n) fields) := by
  rw [requireFields, requireFields, node_payload]
  split
  · exact .error (.missingField _ (h.ids n hn))
  · exact .ok rfl

theorem config_alike {α : Type} (decode : Json → Except Json.DecodeError α) :
    Alike (ConfigurationError.Alike R K) Eq (n.config decode) ((r.node n).config decode) := by
  rw [Node.config, Node.config, node_payload]
  split
  · exact .ok rfl
  · exact .error (.invalidConfig _ (h.ids n hn) (h.kinds n.kind))

/-- **A configuration is at fault alike** in the recast graph. -/
theorem validate_alike (b : Builtin) :
    Alike (ConfigurationError.Alike R K) Eq (b.kind.validate n ⟨nodes⟩)
      (b.kind.validate (r.node n) ⟨nodes.map r.node⟩) := by
  cases b with
  | action =>
    change Alike _ _ (Builtin.validateAction n) (Builtin.validateAction (r.node n))
    rw [Builtin.validateAction, Builtin.validateAction, node_payload]
    split
    · exact .error (.missingField _ (h.ids n hn))
    · exact .ok rfl
  | conditional =>
    refine (h.requireFields_alike hn _).bind_same fun _ => ?_
    refine (h.config_alike hn _).bind_same fun config => ?_
    dsimp only [node_id]
    split
    · exact .error (.noComparisons (h.ids n hn))
    · split
      · exact .error (.connectorMismatch _ _ (h.ids n hn))
      · split
        · exact .error (.missingField _ (h.ids n hn))
        · exact .ok rfl
  | switch =>
    refine (h.requireFields_alike hn _).bind_same fun _ => ?_
    refine (h.config_alike hn _).bind_same fun config => ?_
    rw [node_id, caseSlots_map h.order]
    split
    · exact .error (.noCases (h.ids n hn))
    · exact .ok rfl
  | caseNode =>
    refine (h.requireFields_alike hn _).bind_same fun _ => ?_
    exact (h.config_alike hn _).bind_same fun config => .ok rfl
  | group => exact h.requireFields_alike hn []

/-- **A node is compiled alike** from the same scripts of its slots. -/
theorem compileNode_alike (b : Builtin) (bodies : List SlotBody) :
    Alike (ConfigurationError.Alike R K) Eq (b.kind.compile n bodies)
      (b.kind.compile (r.node n) bodies) := by
  cases b with
  | action | caseNode | group => exact .ok rfl
  | conditional | switch => exact (h.config_alike hn _).bind_same fun config => .ok rfl

omit hn

/-! ## Fragments of nodes -/

/-- **The fragments of a node** are alike, down to any depth. -/
theorem nodeFragment_alike (hn : n ∈ nodes) (comments : Bool) (depth : Nat) :
    Fragment.Alike R K (Generation.nodeFragment ⟨registry, ⟨nodes⟩, comments⟩ depth n)
      (Generation.nodeFragment ⟨registry', ⟨nodes.map r.node⟩, comments⟩ depth (r.node n)) := by
  induction depth generalizing n with
  | zero => exact ⟨rfl, .nil⟩
  | succ depth ih =>
    rw [Generation.nodeFragment, Generation.nodeFragment, node_kind, h.bound]
    cases hget : registry.get? n.kind with
    | none => exact ⟨rfl, .cons (.unknownKind (h.ids n hn) (h.kinds n.kind)) .nil⟩
    | some kind =>
      obtain ⟨b, rfl⟩ := h.builtins _ _ hget
      dsimp only
      rw [declaredSlots_map h.order]
      refine Generation.assemble_alike rfl rfl (h.compileNode_alike hn b) ?_
      -- slot by slot, and in each slot child by child
      refine List.forall₂_map_left_iff.mpr (List.forall₂_map_right_iff.mpr
        (List.forall₂_same.mpr fun slot _ => ⟨rfl, .join ?_⟩))
      rw [node_id, slotChildren_map h.order]
      refine List.rel_map ?_ (forall₂_map r _)
      rintro child _ ⟨hchild, rfl⟩
      exact ih (Containment.mem_slotChildren.mp hchild).1

end Nodes

/-! ## Graphs -/

variable {g : Graph} (h : r.Fits R K registry registry' g.nodes)
include h

/-- **The faults of all configurations** are alike, in the same order. -/
theorem faults_alike :
    Forall₂ (ConfigurationError.Alike R K) (g.faults registry)
      ((r.graph g).faults registry') := by
  refine List.rel_filterMap ?_ (forall₂_map r g.nodes)
  rintro n _ ⟨hn, rfl⟩
  rw [Graph.fault?, Graph.fault?, node_kind, h.bound]
  cases hget : registry.get? n.kind with
  | none => exact .none
  | some kind =>
    obtain ⟨b, rfl⟩ := h.builtins _ _ hget
    have hvalidate := h.validate_alike hn b
    dsimp only [Graph.containment, Recast.graph]
    generalize b.kind.validate n ⟨g.nodes⟩ = answer at hvalidate
    generalize b.kind.validate (r.node n) ⟨g.nodes.map r.node⟩ = answer' at hvalidate
    cases hvalidate with
    | error he => exact .some he
    | ok _ => exact .none

/-- **Compiling a recast graph**: both graphs are at fault alike, or both
have the same script and skip the same nodes. -/
theorem compile_alike (comments : Bool) :
    Alike
      (fun report report' => Forall₂ (ConfigurationError.Alike R K) report.errors report'.errors)
      (fun script script' => script.text = script'.text ∧
        Forall₂ (Diagnostic.Alike R K) script.diagnostics script'.diagnostics)
      (g.compile registry comments) ((r.graph g).compile registry' comments) := by
  have hfaults := h.faults_alike
  refine Graph.compile_alike hfaults ?_ ?_
  · rw [← List.length_eq_zero_iff, ← List.length_eq_zero_iff, hfaults.length_eq]
  · rw [Generation.graphFragment, Generation.graphFragment]
    refine .join ?_
    have hroot : (Containment.mk (g.nodes.map r.node)).root =
        (Containment.mk g.nodes).root.map r.node := children_map h.order none
    simp only [Graph.containment, graph_nodes]
    rw [hroot, List.length_map]
    refine List.rel_map ?_ (forall₂_map r _)
    rintro n _ ⟨hn, rfl⟩
    exact h.nodeFragment_alike (Containment.mem_children.mp hn).1 comments _

end Fits

end Recast

end StepGraph
