import StepGraph.Graph.Containment
import StepGraph.Proofs.Graph.Chain

/-!
# The order of siblings

Siblings come in the order of their sequence numbers and, among equal ones,
of their ids. Ordering a list loses and adds nothing (`orderSiblings_perm`),
and where ids are different each node of the result comes before all that
follow it (`orderSiblings_sorted`). So the children of a scope are the nodes
that have this scope, each once and in order (`mem_children`,
`children_sorted`), and no other list is (`children_eq_of_sorted`). What an
owner holds is in order in the same way (`ownedBy_sorted`), and the case slots
are told from it node by node (`caseSlots_eq_filterMap`). The order in which
the nodes of the list stand says nothing then (`orderSiblings_eq_of_perm`), and
to rewrite nodes so that the same ones come before the same others is to
rewrite them in their order (`orderSiblings_map`).
-/

namespace StepGraph

variable {nodes : List Node} {m n p : Node}

/-! ## Coming before -/

/-- A node comes before another by a lower sequence number, or by its id
where the numbers are equal. -/
theorem precedes_iff :
    m.precedes n = true ↔ m.sequence < n.sequence ∨ m.sequence = n.sequence ∧ m.id < n.id := by
  simp [Node.precedes]

/-- Coming before is transitive. -/
theorem precedes_trans (hmn : m.precedes n = true) (hnp : n.precedes p = true) :
    m.precedes p = true := by
  rw [precedes_iff] at *
  rcases hmn with hmn | ⟨hmn, hid⟩ <;> rcases hnp with hnp | ⟨hnp, hid'⟩
  · exact .inl (by omega)
  · exact .inl (by omega)
  · exact .inl (by omega)
  · exact .inr ⟨by omega, String.lt_trans hid hid'⟩

/-- Of two nodes with different ids one comes before the other. -/
theorem precedes_of_not_precedes (hid : m.id ≠ n.id) (h : ¬ m.precedes n = true) :
    n.precedes m = true := by
  rw [precedes_iff] at *
  by_cases hlt : n.sequence < m.sequence
  · exact .inl hlt
  · have hseq : n.sequence = m.sequence := by
      by_contra hne
      exact h (.inl (by omega))
    have hle : n.id ≤ m.id := String.not_lt.mp fun hlt => h (.inr ⟨hseq.symm, hlt⟩)
    refine .inr ⟨hseq, Classical.byContradiction fun hnlt => hid ?_⟩
    exact String.le_antisymm (String.not_lt.mp hnlt) hle

/-- No two nodes come before each other. -/
theorem not_precedes_of_precedes (h : m.precedes n = true) : ¬ n.precedes m = true := by
  rw [precedes_iff] at *
  rintro (hlt | ⟨hseq, hid⟩)
  · omega
  · rcases h with hlt | ⟨-, hid'⟩
    · omega
    · exact String.lt_irrefl _ (String.lt_trans hid hid')

/-! ## Putting in order -/

/-- Insertion adds the node and nothing else. -/
theorem insertSibling_perm (n : Node) (nodes : List Node) :
    (insertSibling n nodes).Perm (n :: nodes) := by
  induction nodes with
  | nil => exact .refl _
  | cons first rest ih =>
    rw [insertSibling]
    split
    · exact (ih.cons first).trans (.swap n first rest)
    · exact .refl _

/-- **Ordering keeps the nodes.** -/
theorem orderSiblings_perm (nodes : List Node) : (orderSiblings nodes).Perm nodes := by
  induction nodes with
  | nil => exact .refl _
  | cons n rest ih => exact (insertSibling_perm n _).trans (ih.cons n)

/-- Insertion keeps the order. -/
theorem insertSibling_sorted (hid : ∀ m ∈ nodes, m.id ≠ n.id)
    (h : nodes.Pairwise fun a b => a.precedes b = true) :
    (insertSibling n nodes).Pairwise fun a b => a.precedes b = true := by
  induction nodes with
  | nil => exact List.pairwise_singleton _ n
  | cons first rest ih =>
    obtain ⟨hfirst, hrest⟩ := List.pairwise_cons.mp h
    obtain ⟨hne, hids⟩ := List.forall_mem_cons.mp hid
    rw [insertSibling]
    split
    · rename_i hbefore
      refine List.pairwise_cons.mpr ⟨fun b hb => ?_, ih hids hrest⟩
      rcases List.mem_cons.mp ((insertSibling_perm n rest).mem_iff.mp hb) with rfl | hb
      · exact hbefore
      · exact hfirst b hb
    · rename_i hafter
      have hbefore : n.precedes first = true := precedes_of_not_precedes hne hafter
      refine List.pairwise_cons.mpr ⟨fun b hb => ?_, h⟩
      rcases List.mem_cons.mp hb with rfl | hb
      · exact hbefore
      · exact precedes_trans hbefore (hfirst b hb)

/-- **Ordered siblings are in order**, where ids are different. -/
theorem orderSiblings_sorted (hd : DistinctIds nodes) :
    (orderSiblings nodes).Pairwise fun a b => a.precedes b = true := by
  induction nodes with
  | nil => exact .nil
  | cons n rest ih =>
    obtain ⟨hnew, hrest⟩ := List.nodup_cons.mp hd
    refine insertSibling_sorted (fun m hm hid => hnew ?_) (ih hrest)
    exact hid ▸ List.mem_map_of_mem ((orderSiblings_perm rest).mem_iff.mp hm)

/-- **There is one list of the same nodes in order.** -/
theorem eq_of_perm_of_sorted {nodes' : List Node} (hperm : nodes.Perm nodes')
    (h : nodes.Pairwise fun a b => a.precedes b = true)
    (h' : nodes'.Pairwise fun a b => a.precedes b = true) : nodes = nodes' :=
  hperm.eq_of_pairwise (fun _ _ _ _ hab hba => absurd hba (not_precedes_of_precedes hab)) h h'

/-- **Siblings have one order**, whichever way they are listed. -/
theorem orderSiblings_eq_of_perm {nodes' : List Node} (hd : DistinctIds nodes)
    (h : nodes.Perm nodes') : orderSiblings nodes = orderSiblings nodes' := by
  have hd' : DistinctIds nodes' := (h.map Node.id).nodup_iff.mp hd
  have hperm : (orderSiblings nodes).Perm (orderSiblings nodes') :=
    (orderSiblings_perm nodes).trans (h.trans (orderSiblings_perm nodes').symm)
  exact eq_of_perm_of_sorted hperm (orderSiblings_sorted hd) (orderSiblings_sorted hd')

/-! ## Rewriting the nodes -/

theorem insertSibling_map {f : Node → Node}
    (h : ∀ m ∈ nodes, (f m).precedes (f n) = m.precedes n) :
    insertSibling (f n) (nodes.map f) = (insertSibling n nodes).map f := by
  induction nodes with
  | nil => rfl
  | cons first rest ih =>
    obtain ⟨hfirst, hrest⟩ := List.forall_mem_cons.mp h
    rw [List.map_cons, insertSibling, insertSibling, hfirst]
    split
    · rw [ih hrest, List.map_cons]
    · rfl

/-- **Rewritten siblings come in the order they had**, where the same ones
come before the same others. -/
theorem orderSiblings_map {f : Node → Node}
    (h : ∀ m ∈ nodes, ∀ n ∈ nodes, (f m).precedes (f n) = m.precedes n) :
    orderSiblings (nodes.map f) = (orderSiblings nodes).map f := by
  induction nodes with
  | nil => rfl
  | cons n rest ih =>
    have hrest : ∀ m ∈ rest, ∀ p ∈ rest, (f m).precedes (f p) = m.precedes p := fun m hm p hp =>
      h m (List.mem_cons_of_mem _ hm) p (List.mem_cons_of_mem _ hp)
    have hnew : ∀ m ∈ orderSiblings rest, (f m).precedes (f n) = m.precedes n := fun m hm =>
      h m (List.mem_cons_of_mem _ ((orderSiblings_perm rest).mem_iff.mp hm)) n List.mem_cons_self
    change insertSibling (f n) (orderSiblings (rest.map f)) = _
    rw [ih hrest, insertSibling_map hnew]
    rfl

/-! ## Children -/

/-- Some nodes of a list with different ids have different ids. -/
theorem DistinctIds.filter (hd : DistinctIds nodes) (keep : Node → Bool) :
    DistinctIds (nodes.filter keep) :=
  List.Nodup.sublist (List.filter_sublist.map Node.id) hd

/-- The case slot that a node sits in. -/
def Node.caseSlot? (n : Node) : Option Slot :=
  match n.scope with
  | some ⟨_, .caseBranch value⟩ => some (.caseBranch value)
  | _ => none

namespace Containment

variable {view : Containment} {scope : Option Scope} {owner : String} {slot : Slot}

/-- **The children of a scope are the nodes that have it.** -/
theorem mem_children : n ∈ view.children scope ↔ n ∈ view.nodes ∧ n.scope = scope := by
  rw [children, (orderSiblings_perm _).mem_iff, List.mem_filter, beq_iff_eq]

/-- The nodes of a slot are those that have this place. -/
theorem mem_slotChildren :
    n ∈ view.slotChildren owner slot ↔ n ∈ view.nodes ∧ n.scope = some ⟨owner, slot⟩ :=
  mem_children

/-- **Children are in order.** -/
theorem children_sorted (hd : DistinctIds view.nodes) :
    (view.children scope).Pairwise fun a b => a.precedes b = true :=
  orderSiblings_sorted (hd.filter _)

/-- Each child is there once. -/
theorem children_nodup (hd : DistinctIds view.nodes) : (view.children scope).Nodup :=
  (orderSiblings_perm _).nodup_iff.mpr (hd.filter _).nodup

/-- **A list of the right nodes in order is the list of children.** -/
theorem children_eq_of_sorted (hd : DistinctIds nodes) {children : List Node}
    (hsorted : children.Pairwise fun a b => a.precedes b = true)
    (hmem : ∀ n, n ∈ children ↔ n ∈ nodes ∧ n.scope = scope) :
    (mk nodes).children scope = children := by
  have hnodup : children.Nodup := by
    refine hsorted.imp fun {a b} hab heq => ?_
    subst heq
    exact not_precedes_of_precedes hab hab
  have hperm : ((mk nodes).children scope).Perm children :=
    (List.perm_ext_iff_of_nodup (children_nodup hd) hnodup).mpr fun n =>
      mem_children.trans (hmem n).symm
  exact eq_of_perm_of_sorted hperm (children_sorted hd) hsorted

/-- What an owner holds are the nodes whose scope names it. -/
theorem mem_ownedBy : n ∈ view.ownedBy owner ↔ n ∈ view.nodes ∧ n.owner? = some owner := by
  rw [ownedBy, (orderSiblings_perm _).mem_iff, List.mem_filter, Node.isOwnedBy, beq_iff_eq]

/-- What an owner holds has different ids. -/
theorem distinctIds_ownedBy (hd : DistinctIds view.nodes) : DistinctIds (view.ownedBy owner) :=
  ((orderSiblings_perm _).map Node.id).nodup_iff.mpr (hd.filter _)

/-- What an owner holds is in order. -/
theorem ownedBy_sorted (hd : DistinctIds view.nodes) :
    (view.ownedBy owner).Pairwise fun a b => a.precedes b = true :=
  orderSiblings_sorted (hd.filter _)

/-- **The case slots of an owner** are those that its nodes sit in. -/
theorem caseSlots_eq_filterMap :
    view.caseSlots owner = (view.ownedBy owner).filterMap Node.caseSlot? := rfl

/-- The case slot of a node that an owner holds is the slot of its scope. -/
theorem caseSlot?_eq_some_iff (h : n ∈ view.ownedBy owner) :
    n.caseSlot? = some slot ↔
      ∃ value, slot = .caseBranch value ∧ n.scope = some ⟨owner, slot⟩ := by
  obtain ⟨⟨owner, place⟩, hscope, rfl⟩ := Option.map_eq_some_iff.mp (mem_ownedBy.mp h).2
  rw [Node.caseSlot?, hscope]
  constructor
  · intro hslot
    cases place <;> cases hslot
    exact ⟨_, rfl, rfl⟩
  · rintro ⟨value, rfl, hplace⟩
    cases hplace
    rfl

/-- **The case slots of an owner are the occupied ones.** -/
theorem mem_caseSlots :
    slot ∈ view.caseSlots owner ↔
      ∃ value, slot = .caseBranch value ∧ ∃ n ∈ view.nodes, n.scope = some ⟨owner, slot⟩ := by
  rw [caseSlots_eq_filterMap, List.mem_filterMap]
  constructor
  · rintro ⟨n, hn, hslot⟩
    obtain ⟨value, rfl, hscope⟩ := (caseSlot?_eq_some_iff hn).mp hslot
    exact ⟨value, rfl, n, (mem_ownedBy.mp hn).1, hscope⟩
  · rintro ⟨value, rfl, n, hn, hscope⟩
    have hown : n ∈ view.ownedBy owner := mem_ownedBy.mpr ⟨hn, owner?_of_scope hscope⟩
    exact ⟨n, hown, (caseSlot?_eq_some_iff hown).mpr ⟨value, rfl, hscope⟩⟩

end Containment

/-- The children of a place in a graph, in order. -/
def Graph.children (g : Graph) (place : Option Scope) : List Node :=
  (Containment.mk g.nodes).children place

end StepGraph
