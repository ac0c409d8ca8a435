import Mathlib.Data.List.Flatten
import StepGraph.Proofs.Script.Emission

/-!
# Siblings in a script

The nodes of a scope are generated one after the other, and each as deep as
the others. So a script that passes one of them passes those that come after it
behind it (`Graph.passes_in_order`). This holds whatever the kinds are, and
whatever the nodes: of a kind that declares a slot twice the whole slot comes
twice.
-/

namespace StepGraph

variable {registry : Registry} {g : Graph} {n s t : Node} {place : Option Scope}

namespace Generation

variable {setting : Setting} {depth : Nat} {siblings : List Node}

/-- The nodes that are passed on the way through a node, down to a depth. -/
def passed (setting : Setting) (depth : Nat) (n : Node) : List Node :=
  (nodeFragment setting depth n).visits.map Visit.node

/-- **Behind the nodes of its declared slots a node is passed itself**, whether
its kind compiles it or not. -/
theorem passed_succ :
    passed setting (depth + 1) n =
      (declaredChildren setting.registry setting.containment n).flatMap (passed setting depth) ++
        [n] := by
  unfold passed
  rw [nodeFragment, declaredChildren]
  cases setting.registry.get? n.kind with
  | none => rfl
  | some kind =>
    dsimp only [assemble]
    split
    all_goals
      simp only [List.map_append, List.map_flatMap, List.flatMap_map, List.flatMap_assoc,
        Fragment.join]
      rfl

/-- On the way through a node of the graph nodes of the graph are passed. -/
theorem passed_subset (hn : n ∈ setting.containment.nodes) :
    passed setting depth n ⊆ setting.containment.nodes := by
  induction depth generalizing n with
  | zero => exact List.nil_subset _
  | succ depth ih =>
    rw [passed_succ]
    refine List.append_subset.mpr ⟨fun m hm => ?_, List.cons_subset.mpr ⟨hn, List.nil_subset _⟩⟩
    obtain ⟨c, hc, hm⟩ := List.mem_flatMap.mp hm
    unfold declaredChildren at hc
    split at hc
    · cases hc
    · obtain ⟨slot, -, hc⟩ := List.mem_flatMap.mp hc
      exact ih (Containment.mem_slotChildren.mp hc).1 hm

/-- A node is passed where there is any depth. -/
theorem mem_passed_self : n ∈ passed setting (depth + 1) n := by
  rw [passed_succ]
  exact List.mem_append_right _ (List.mem_singleton_self n)

/-- Of two nodes in a list, the ways through the list pass the second behind the
first. -/
theorem pair_sublist_flatMap_passed (h : [s, t].Sublist siblings) :
    [s, t].Sublist (siblings.flatMap (passed setting (depth + 1))) := by
  have hself (a : Node) : [a].Sublist (passed setting (depth + 1) a) :=
    List.singleton_sublist.mpr mem_passed_self
  calc [s, t] = [s] ++ [t] := rfl
    List.Sublist _ (passed setting (depth + 1) s ++ passed setting (depth + 1) t) :=
      (hself s).append (hself t)
    _ = [s, t].flatMap (passed setting (depth + 1)) := by simp
    List.Sublist _ (siblings.flatMap (passed setting (depth + 1))) := h.flatMap _

/-- From siblings on: the pair is among them, or on the way through one. -/
theorem pair_sublist_of_mem_flatMap (hpair : s ∈ siblings → [s, t].Sublist siblings)
    (hbelow : ∀ c ∈ siblings, c ≠ s → s ∈ passed setting depth c →
      [s, t].Sublist (passed setting depth c))
    (hs : s ∈ siblings.flatMap (passed setting depth)) :
    [s, t].Sublist (siblings.flatMap (passed setting depth)) := by
  obtain ⟨c, hc, hs⟩ := List.mem_flatMap.mp hs
  by_cases heq : c = s
  · subst heq
    -- where there is no depth nothing is passed
    cases depth with
    | zero => cases hs
    | succ depth => exact pair_sublist_flatMap_passed (hpair hc)
  · refine (hbelow c hc heq hs).trans ?_
    have hone : [c].Sublist siblings := List.singleton_sublist.mpr hc
    simpa using hone.flatMap (passed setting depth)

/-- **Siblings on the way through a node** that is not the first of them. -/
theorem pair_sublist_passed (h : [s, t].Sublist (setting.containment.children place))
    (hne : n ≠ s) (hs : s ∈ passed setting depth n) :
    [s, t].Sublist (passed setting depth n) := by
  induction depth generalizing n with
  | zero => cases hs
  | succ depth ih =>
    rw [passed_succ, List.mem_append] at hs
    rw [passed_succ]
    have hs := hs.resolve_right fun hself => hne (List.mem_singleton.mp hself).symm
    refine (pair_sublist_of_mem_flatMap (fun hchild => ?_) (fun c _ => ih) hs).trans
      (List.sublist_append_left _ _)
    -- where the first of them is in a declared slot, both are
    unfold declaredChildren at hchild ⊢
    cases hget : setting.registry.get? n.kind with
    | none =>
      rw [hget] at hchild
      cases hchild
    | some kind =>
      rw [hget] at hchild
      obtain ⟨slot, hslot, hchild⟩ := List.mem_flatMap.mp hchild
      have hscope := (Containment.mem_children.mp hchild).2
      have hplace := (Containment.mem_children.mp (h.subset List.mem_cons_self)).2
      have hin : [s, t].Sublist (setting.containment.slotChildren n.id slot) := by
        rw [Containment.slotChildren, ← hscope, hplace]
        exact h
      have hone := (List.singleton_sublist.mpr hslot).flatMap
        (setting.containment.slotChildren n.id)
      exact hin.trans (by simpa using hone)

end Generation

namespace Graph

variable {comments : Bool} {script : Script}

/-- A script passes the nodes on the ways through those of the top level. -/
theorem map_node_visits (h : g.compile registry comments = .ok script) :
    script.visits.map Visit.node = (g.children none).flatMap
      (Generation.passed ⟨registry, g.containment, comments⟩ g.nodes.length) := by
  obtain ⟨-, rfl⟩ := compile_eq_ok_iff.mp h
  simp only [Script.generate, Generation.graphFragment, Fragment.join, List.map_flatMap,
    List.flatMap_map]
  rfl

/-- A script passes nodes of the graph. -/
theorem mem_of_mem_visits (h : g.compile registry comments = .ok script)
    (hn : n ∈ script.visits.map Visit.node) : n ∈ g.nodes := by
  rw [map_node_visits h] at hn
  obtain ⟨c, hc, hn⟩ := List.mem_flatMap.mp hn
  exact Generation.passed_subset (Containment.mem_children.mp hc).1 hn

/-- **Siblings are passed in their order.** A script that passes a node passes
the siblings that come after it behind it. -/
theorem passes_in_order (h : [s, t].Sublist (g.children place))
    (hcompile : g.compile registry comments = .ok script)
    (hs : s ∈ script.visits.map Visit.node) : [s, t].Sublist (script.visits.map Visit.node) := by
  rw [map_node_visits hcompile] at hs ⊢
  refine Generation.pair_sublist_of_mem_flatMap (fun hroot => ?_)
    (fun c _ hne => Generation.pair_sublist_passed h hne) hs
  have htop := (Containment.mem_children.mp hroot).2
  have hplace := (Containment.mem_children.mp (h.subset List.mem_cons_self)).2
  have hin : [s, t].Sublist (g.children none) := by
    rw [← htop, hplace]
    exact h
  exact hin

end Graph

end StepGraph
