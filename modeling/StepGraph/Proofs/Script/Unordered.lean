import StepGraph.Proofs.Alike
import StepGraph.Proofs.Graph.Layout

/-!
# Scripts and layout

A script does not depend on the layout of a graph. Configurations are
validated in the order of the list, so the faults of two graphs with the same
nodes are the same up to order (`faults_perm`). The script is generated from
the answers of the containment view, so scripts and diagnostics are the same
altogether (`compile_of_sameNodes`).
-/

namespace StepGraph

open List (Forall₂)

variable {registry : Registry} {view view' : Containment} {n n' : Node} {g g' : Graph}

/-! ## Faults -/

/-- A configuration is at fault wherever its node is drawn. -/
theorem fault?_eq_of_undrawn (hreg : registry.IgnoresLayout) (hview : view.Agrees view')
    (hn : n.undrawn = n'.undrawn) :
    Graph.fault? registry view n = Graph.fault? registry view' n' := by
  have hkind : n.undrawn.kind = n'.undrawn.kind := congrArg Node.kind hn
  rw [Graph.fault?, Graph.fault?, ← n.undrawn_kind, hkind, n'.undrawn_kind]
  cases hget : registry.get? n'.kind with
  | none => rfl
  | some kind =>
    dsimp only
    rw [(hreg _ kind hget).validate n n' view view' hn hview]

/-- **The same nodes have the same faults**, in the order of each list. -/
theorem faults_perm (hreg : registry.IgnoresLayout) (hd : DistinctIds g.nodes)
    (h : SameNodes g.nodes g'.nodes) : (g.faults registry).Perm (g'.faults registry) := by
  have hundrawn : ∀ graph : Graph, graph.faults registry =
      (graph.nodes.map Node.undrawn).filterMap (Graph.fault? registry graph.containment) :=
    fun graph => by
      rw [List.filterMap_map]
      exact congrArg (List.filterMap · graph.nodes) <|
        funext fun n => fault?_eq_of_undrawn hreg (.refl _) rfl
  have hview : g.containment.Agrees g'.containment := Containment.agrees_of_sameNodes hd h
  have hfault : Graph.fault? registry g.containment = Graph.fault? registry g'.containment :=
    funext fun n => fault?_eq_of_undrawn hreg hview rfl
  rw [hundrawn g, hundrawn g', hfault]
  exact h.filterMap _

/-! ## Fragments -/

/-- **The fragments of a node** are alike wherever the nodes are drawn, down
to any depth. -/
theorem nodeFragment_alike_of_undrawn (hreg : registry.IgnoresLayout) (hview : view.Agrees view')
    (comments : Bool) (depth : Nat) (hn : n.undrawn = n'.undrawn) :
    Fragment.Alike Eq Eq (Generation.nodeFragment ⟨registry, view, comments⟩ depth n)
      (Generation.nodeFragment ⟨registry, view', comments⟩ depth n') := by
  induction depth generalizing n n' with
  | zero => exact ⟨rfl, .nil⟩
  | succ depth ih =>
    have hid : n.id = n'.id := by rw [← n.undrawn_id, hn, n'.undrawn_id]
    have hkind : n.kind = n'.kind := by rw [← n.undrawn_kind, hn, n'.undrawn_kind]
    have hpayload : n.payload = n'.payload := by
      rw [← n.undrawn_payload, hn, n'.undrawn_payload]
    rw [Generation.nodeFragment, Generation.nodeFragment, hkind]
    cases hget : registry.get? n'.kind with
    | none => exact ⟨rfl, .cons (.unknownKind hid hkind) .nil⟩
    | some kind =>
      have hignores := hreg _ kind hget
      dsimp only
      rw [hignores.declaredSlots n n' view view' hn hview, hid]
      refine Generation.assemble_alike rfl (congrArg Payload.label hpayload) (fun bodies => ?_) ?_
      · rw [hignores.compile n n' bodies hn]
        exact .refl .refl (fun _ => rfl) _
      -- slot by slot, and in each slot child by child
      · refine List.forall₂_map_left_iff.mpr (List.forall₂_map_right_iff.mpr
          (List.forall₂_same.mpr fun slot _ => ⟨rfl, .join ?_⟩))
        exact List.rel_map (fun _ _ hchild => ih hchild) (hview.forall₂_children _)

/-! ## Graphs -/

/-- **Compiling the same nodes**: both graphs are refused for the same faults
up to order, or both have the same script and skip the same nodes. -/
theorem compile_of_sameNodes (hreg : registry.IgnoresLayout) (hd : DistinctIds g.nodes)
    (h : SameNodes g.nodes g'.nodes) (comments : Bool) :
    Alike (fun report report' => report.errors.Perm report'.errors)
      (fun script script' => script.text = script'.text ∧ script.diagnostics = script'.diagnostics)
      (g.compile registry comments) (g'.compile registry comments) := by
  have hview : g.containment.Agrees g'.containment := Containment.agrees_of_sameNodes hd h
  have hfaults := faults_perm hreg hd h
  have hlength : g.nodes.length = g'.nodes.length := by simpa using h.length_eq
  have hfragment : Fragment.Alike Eq Eq
      (Generation.graphFragment ⟨registry, g.containment, comments⟩)
      (Generation.graphFragment ⟨registry, g'.containment, comments⟩) := by
    have hdepth : g.containment.nodes.length = g'.containment.nodes.length := hlength
    rw [Generation.graphFragment, Generation.graphFragment]
    dsimp only
    rw [hdepth]
    refine .join (List.rel_map (fun _ _ hn => ?_) (hview.forall₂_children none))
    exact nodeFragment_alike_of_undrawn hreg hview comments _ hn
  have halike := Graph.compile_alike hfaults ⟨fun hnil => ?_, fun hnil => ?_⟩ hfragment
  · exact halike.imp (fun _ _ he => he) fun _ _ hv => ⟨hv.1, Diagnostic.Alike.eq_list hv.2⟩
  · rw [hnil] at hfaults
    exact hfaults.nil_eq.symm
  · rw [hnil] at hfaults
    exact hfaults.eq_nil

end StepGraph
