import StepGraph.Document.Load
import StepGraph.Proofs.Checks
import StepGraph.Proofs.Graph.Chain
import StepGraph.Store.Placement

/-!
# The two checks against circles

An edit asks whether the chain of a scope meets a node, loading asks whether
any chain of owners comes back to where it was. The walk of an edit goes
along the chain (`chainMeets_eq`), so the check fails for the nodes of the
chain and for no others (`checkAcyclic_eq_ok_iff`). The walk of loading
remembers where it was; within its number of steps it either ends at the
top level or has come back, since ids that are different cannot be more
than there are nodes (`grounded_of_revisited?_eq_none`). So loading accepts
the lists in which no node lies inside itself (`checkCycles_eq_ok_iff`),
and these are the lists in which every node is grounded
(`checkCycles_eq_ok_iff_grounded`).
-/

namespace StepGraph

variable {nodes : List Node} {scope : Option Scope} {chain : List Node} {n : Node}

/-- A chain is no longer than the list. -/
theorem Chain.length_le (hd : DistinctIds nodes) (h : Chain nodes scope chain) :
    chain.length ≤ nodes.length :=
  (h.nodup hd).length_le_of_subset h.subset

/-! ## The check of an edit -/

namespace Placement

variable {graph : Graph} {id : String}

/-- The owner of a node of the graph is the one its scope names. -/
theorem ownerOf?_eq (hd : DistinctIds graph.nodes) (hn : n ∈ graph.nodes) :
    graph.ownerOf? n.id = n.owner? := by
  have hfind : graph.node? n.id = some n := hd.find?_eq_some_iff.mpr ⟨hn, rfl⟩
  rw [Graph.ownerOf?, hfind, Option.bind_some]

/-- **The walk goes along the chain.** With steps enough it meets an id
when a node of the chain has it. -/
theorem chainMeets_eq (hd : DistinctIds graph.nodes) (h : Chain graph.nodes scope chain)
    {steps : Nat} (hsteps : chain.length ≤ steps) :
    chainMeets graph id steps (scope.map Scope.owner) = chain.any (·.id == id) := by
  induction h generalizing steps with
  | top => simp [chainMeets]
  | @up scope owner rest hmem hid _ ih =>
    obtain ⟨k, rfl⟩ : ∃ k, steps = k + 1 :=
      ⟨steps - 1, by simp only [List.length_cons] at hsteps; omega⟩
    have hrest : rest.length ≤ k := by simp only [List.length_cons] at hsteps; omega
    have howner : graph.ownerOf? scope.owner = owner.scope.map Scope.owner := by
      rw [← hid, ownerOf?_eq hd hmem, Node.owner?]
    rw [Option.map_some, chainMeets, howner, ih hrest, List.any_cons, hid]

/-- **An edit's check against circles** succeeds when the node is not on the
chain of its new scope. -/
theorem checkAcyclic_eq_ok_iff (hd : DistinctIds graph.nodes)
    (h : Chain graph.nodes scope chain) :
    checkAcyclic graph id scope = .ok () ↔ ∀ a ∈ chain, a.id ≠ id := by
  cases scope with
  | none => cases h; simp [checkAcyclic]
  | some scope =>
    have hmeets : chainMeets graph id (graph.nodes.length + 1) (some scope.owner) =
        chain.any (·.id == id) := chainMeets_eq hd h (Nat.le_succ_of_le (h.length_le hd))
    rw [checkAcyclic, hmeets]
    simp

end Placement

/-! ## The check of loading -/

namespace Document

/-- Every owner that a scope names is a node of the list. -/
def OwnersKnown (nodes : List Node) : Prop :=
  ∀ n ∈ nodes, ∀ scope, n.scope = some scope → ∃ owner ∈ nodes, owner.id = scope.owner

/-- The owner of a listed node is the one its scope names. -/
theorem ownerIn_eq (hd : DistinctIds nodes) (hn : n ∈ nodes) :
    ownerIn nodes n.id = n.owner? := by
  have hreverse : DistinctIds nodes.reverse := by
    rw [DistinctIds, List.map_reverse]
    exact List.nodup_reverse.mpr hd
  rw [ownerIn, hreverse.find?_eq_some_iff.mpr ⟨List.mem_reverse.mpr hn, rfl⟩, Option.bind_some]

/-- **A walk that comes back nowhere has ended.** Each step adds a new id to
the ones seen, so the steps cannot run out first. -/
theorem grounded_of_revisited?_eq_none (hd : DistinctIds nodes) (hknown : OwnersKnown nodes)
    {steps : Nat} {seen : List String} (hn : n ∈ nodes) (hseen : seen.Nodup)
    (hsub : seen ⊆ nodes.map Node.id) (hsteps : nodes.length < steps + seen.length)
    (h : revisited? (ownerIn nodes) steps seen n.id = none) : Grounded nodes n.scope := by
  induction steps generalizing seen n with
  | zero =>
    -- more ids have been seen than there are
    have hle := hseen.length_le_of_subset hsub
    rw [List.length_map] at hle
    omega
  | succ steps ih =>
    rw [revisited?, ownerIn_eq hd hn] at h
    split at h
    · cases h
    rename_i hnew
    have hnew : n.id ∉ seen := by simpa using hnew
    cases hscope : n.scope with
    | none => exact ⟨[], .top⟩
    | some scope =>
      obtain ⟨owner, hmem, hid⟩ := hknown n hn scope hscope
      rw [owner?_of_scope hscope] at h
      have hseen' : (n.id :: seen).Nodup := List.nodup_cons.mpr ⟨hnew, hseen⟩
      obtain ⟨rest, hrest⟩ : Grounded nodes owner.scope :=
        ih hmem hseen' (List.cons_subset.mpr ⟨List.mem_map_of_mem hn, hsub⟩)
          (by rw [List.length_cons]; omega) (by rw [hid]; exact h)
      exact ⟨owner :: rest, .up hmem hid hrest⟩

/-- A walk that comes back to an id has found a node that lies inside
itself: all nodes seen lie inside the present one. -/
theorem inside_self_of_revisited? (hd : DistinctIds nodes) (hknown : OwnersKnown nodes)
    {steps : Nat} {seen : List String} {id : String} (hn : n ∈ nodes)
    (hseen : ∀ s ∈ seen, ∃ m ∈ nodes, m.id = s ∧ Inside nodes n m)
    (h : revisited? (ownerIn nodes) steps seen n.id = some id) :
    ∃ m ∈ nodes, Inside nodes m m := by
  induction steps generalizing seen n with
  | zero => cases h
  | succ steps ih =>
    rw [revisited?, ownerIn_eq hd hn] at h
    split at h
    · rename_i hback
      obtain ⟨m, hm, hmid, hin⟩ := hseen n.id (by simpa using hback)
      obtain rfl := hd.eq hm hn hmid
      exact ⟨m, hm, hin⟩
    · cases hscope : n.scope with
      | none => rw [owner?_of_top hscope] at h; cases h
      | some scope =>
        obtain ⟨owner, hmem, hid⟩ := hknown n hn scope hscope
        have hown : Owns nodes owner n := owns_iff.mpr ⟨hmem, scope, hscope, hid⟩
        rw [owner?_of_scope hscope] at h
        have hseen' : ∀ s ∈ n.id :: seen, ∃ m ∈ nodes, m.id = s ∧ Inside nodes owner m := by
          intro s hs
          rcases List.mem_cons.mp hs with rfl | hs
          · exact ⟨n, hn, rfl, .single hown⟩
          · obtain ⟨m, hm, hmid, hin⟩ := hseen s hs
            exact ⟨m, hm, hmid, .head hown hin⟩
        exact ih hmem hseen' (by rw [hid]; exact h)

/-- The check passes when no walk comes back. -/
theorem checkCycles_eq_ok_iff_revisited? :
    checkCycles nodes = .ok () ↔
      ∀ n ∈ nodes, revisited? (ownerIn nodes) (nodes.length + 2) [] n.id = none := by
  rw [checkCycles, Checks.forM_eq_ok_iff]
  refine forall₂_congr fun n _ => ?_
  cases revisited? (ownerIn nodes) (nodes.length + 2) [] n.id <;> simp

/-- The check passes where no node lies inside itself. -/
theorem checkCycles_eq_ok_of_not_inside (hd : DistinctIds nodes) (hknown : OwnersKnown nodes)
    (h : ∀ n ∈ nodes, ¬ Inside nodes n n) : checkCycles nodes = .ok () := by
  rw [checkCycles_eq_ok_iff_revisited?]
  intro n hn
  cases hback : revisited? (ownerIn nodes) (nodes.length + 2) [] n.id with
  | none => rfl
  | some id =>
    obtain ⟨m, hm, hin⟩ := inside_self_of_revisited? hd hknown hn (by simp) hback
    exact absurd hin (h m hm)

/-- **Loading's check against circles** passes when every node is
grounded. -/
theorem checkCycles_eq_ok_iff_grounded (hd : DistinctIds nodes) (hknown : OwnersKnown nodes) :
    checkCycles nodes = .ok () ↔ ∀ n ∈ nodes, Grounded nodes n.scope := by
  constructor
  · intro h n hn
    have hnone := checkCycles_eq_ok_iff_revisited?.mp h n hn
    exact grounded_of_revisited?_eq_none hd hknown hn List.nodup_nil (List.nil_subset _)
      (by rw [List.length_nil]; omega) hnone
  · intro h
    exact checkCycles_eq_ok_of_not_inside hd hknown fun n hn => not_inside_self hd (h n hn)

/-- **Loading accepts the lists without a circle.** -/
theorem checkCycles_eq_ok_iff (hd : DistinctIds nodes) (hknown : OwnersKnown nodes) :
    checkCycles nodes = .ok () ↔ ∀ n ∈ nodes, ¬ Inside nodes n n := by
  refine ⟨fun h n hn => ?_, checkCycles_eq_ok_of_not_inside hd hknown⟩
  exact not_inside_self hd ((checkCycles_eq_ok_iff_grounded hd hknown).mp h n hn)

end Document

end StepGraph
