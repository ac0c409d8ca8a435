import StepGraph.Proofs.Graph.Index
import StepGraph.Proofs.Graph.Siblings
import Mathlib.Data.List.Nodup

/-!
# Containment parts the nodes

The children of the top level and of all slots are the nodes, each of them
once: where ids are different, these lists make a partition
(`Containment.root_append_perm`). What an owner holds is parted by its slots in
the same way, and since every list is in order, it is the lists of the slots
merged (`Containment.ownedBy_eq_mergeAll`). Where no two nodes share a case
slot of an owner, its case slots come once each, in the order of the nodes in
them (`Containment.CasesApart.caseSlots_sorted`). That is what there is to say
of a view, and of the lists that one pass over the nodes fills
(`Containment.orderedPartition`).
-/

namespace StepGraph

variable {nodes xs ys : List Node} {lists : List (List Node)} {m n p : Node}

/-! ## Merging -/

/-- Two lists in order as one. -/
def mergeSiblings (xs ys : List Node) : List Node :=
  xs.merge ys fun m n => !n.precedes m

/-- Lists in order as one. -/
def mergeAll (lists : List (List Node)) : List Node :=
  lists.foldr mergeSiblings []

/-- Not to come before another node is not to have a lower sequence number, nor
a lower id with the same one. -/
theorem not_precedes_iff :
    ¬ n.precedes m = true ↔ m.sequence < n.sequence ∨ m.sequence = n.sequence ∧ m.id ≤ n.id := by
  rw [precedes_iff, not_or, not_and, String.not_lt, Nat.not_lt]
  constructor
  · rintro ⟨hle, hid⟩
    rcases Nat.lt_or_eq_of_le hle with hlt | heq
    · exact .inl hlt
    · exact .inr ⟨heq, hid heq.symm⟩
  · rintro (hlt | ⟨heq, hid⟩)
    · exact ⟨Nat.le_of_lt hlt, fun heq => absurd heq.symm (Nat.ne_of_lt hlt)⟩
    · exact ⟨Nat.le_of_eq heq, fun _ => hid⟩

/-- Of two nodes in a row neither comes before the one in front of it, nor does
the last before the first. -/
theorem not_precedes_trans (hmn : ¬ n.precedes m = true) (hnp : ¬ p.precedes n = true) :
    ¬ p.precedes m = true := by
  rw [not_precedes_iff] at *
  rcases hmn with hmn | ⟨hmn, hid⟩ <;> rcases hnp with hnp | ⟨hnp, hid'⟩
  · exact .inl (by omega)
  · exact .inl (by omega)
  · exact .inl (by omega)
  · exact .inr ⟨by omega, String.le_trans hid hid'⟩

theorem mergeSiblings_perm (xs ys : List Node) : (mergeSiblings xs ys).Perm (xs ++ ys) :=
  List.merge_perm_append _

/-- Merging two lists in order keeps the order, where ids are different. -/
theorem mergeSiblings_sorted (hd : DistinctIds (xs ++ ys))
    (hxs : xs.Pairwise fun a b => a.precedes b = true)
    (hys : ys.Pairwise fun a b => a.precedes b = true) :
    (mergeSiblings xs ys).Pairwise fun a b => a.precedes b = true := by
  have hnot {a b : Node} : (!b.precedes a) = true ↔ ¬ b.precedes a = true := by simp
  have hweak : (mergeSiblings xs ys).Pairwise fun a b => (!b.precedes a) = true := by
    refine List.pairwise_merge (fun a b c hab hbc => ?_) (fun a b => ?_) xs ys
      (hxs.imp fun hab => hnot.mpr (not_precedes_of_precedes hab))
      (hys.imp fun hab => hnot.mpr (not_precedes_of_precedes hab))
    · exact hnot.mpr (not_precedes_trans (hnot.mp hab) (hnot.mp hbc))
    · by_cases hab : a.precedes b = true
      · rw [Bool.or_eq_true, hnot]
        exact .inl (not_precedes_of_precedes hab)
      · rw [Bool.or_eq_true, hnot, hnot]
        exact .inr hab
  have hids : DistinctIds (mergeSiblings xs ys) :=
    ((mergeSiblings_perm xs ys).map Node.id).nodup_iff.mpr hd
  exact (hweak.and (List.pairwise_map.mp hids)).imp fun ⟨hab, hne⟩ =>
    precedes_of_not_precedes (Ne.symm hne) (hnot.mp hab)

theorem mergeAll_perm (lists : List (List Node)) : (mergeAll lists).Perm lists.flatten := by
  induction lists with
  | nil => exact .refl _
  | cons xs lists ih => exact (mergeSiblings_perm xs _).trans (ih.append_left xs)

/-- **Merging lists in order keeps the order**, where ids are different. -/
theorem mergeAll_sorted (hd : DistinctIds lists.flatten)
    (h : ∀ xs ∈ lists, xs.Pairwise fun a b => a.precedes b = true) :
    (mergeAll lists).Pairwise fun a b => a.precedes b = true := by
  induction lists with
  | nil => exact .nil
  | cons xs lists ih =>
    obtain ⟨hxs, hlists⟩ := List.forall_mem_cons.mp h
    have hperm : (xs ++ mergeAll lists).Perm (xs :: lists).flatten :=
      (mergeAll_perm lists).append_left xs
    have hrest : DistinctIds lists.flatten :=
      List.Nodup.sublist ((List.sublist_append_right xs _).map Node.id) hd
    exact mergeSiblings_sorted ((hperm.map Node.id).nodup_iff.mpr hd) hxs (ih hrest hlists)

namespace Containment

variable {view : Containment} {owner : String} {slot : Slot}

/-! ## Parts -/

/-- The children of different scopes are different nodes. -/
theorem flatMap_children_nodup (hd : DistinctIds view.nodes) {scopes : List (Option Scope)}
    (hscopes : scopes.Nodup) : (scopes.flatMap view.children).Nodup := by
  refine List.nodup_flatMap.mpr ⟨fun _ _ => children_nodup hd, hscopes.imp fun hne => ?_⟩
  intro n hn hn'
  exact hne ((mem_children.mp hn).2.symm.trans (mem_children.mp hn').2)

/-- A list of nodes of different scopes holds what the children of these scopes
are, when it holds the nodes that have them. -/
theorem flatMap_children_perm (hd : DistinctIds view.nodes) {scopes : List (Option Scope)}
    (hscopes : scopes.Nodup) {held : List Node} (hheld : held.Nodup)
    (hmem : ∀ n, n ∈ held ↔ n ∈ view.nodes ∧ n.scope ∈ scopes) :
    (scopes.flatMap view.children).Perm held := by
  refine (List.perm_ext_iff_of_nodup (flatMap_children_nodup hd hscopes) hheld).mpr fun n => ?_
  rw [hmem, List.mem_flatMap]
  constructor
  · rintro ⟨scope, hscope, hchild⟩
    obtain ⟨hn, rfl⟩ := mem_children.mp hchild
    exact ⟨hn, hscope⟩
  · rintro ⟨hn, hscope⟩
    exact ⟨n.scope, hscope, mem_children.mpr ⟨hn, rfl⟩⟩

/-- **The top level and the slots are the nodes**, each of them once. -/
theorem root_append_perm (hd : DistinctIds view.nodes) {scopes : List Scope}
    (hscopes : scopes.Nodup)
    (hall : ∀ n ∈ view.nodes, ∀ scope, n.scope = some scope → scope ∈ scopes) :
    (view.root ++ scopes.flatMap fun scope => view.slotChildren scope.owner scope.slot).Perm
      view.nodes := by
  have hlists : (none :: scopes.map some).flatMap view.children =
      view.root ++ scopes.flatMap fun scope => view.slotChildren scope.owner scope.slot := by
    rw [List.flatMap_cons, List.flatMap_map]
    rfl
  have hnodup : (none :: scopes.map some).Nodup :=
    List.nodup_cons.mpr ⟨by simp, hscopes.map fun _ _ => Option.some.inj⟩
  rw [← hlists]
  refine flatMap_children_perm hd hnodup hd.nodup fun n => (and_iff_left_of_imp fun hn => ?_).symm
  cases hscope : n.scope with
  | none => exact List.mem_cons_self
  | some scope => exact List.mem_cons_of_mem _ (List.mem_map_of_mem (hall n hn scope hscope))

/-- **What an owner holds is what its slots hold**, each node once. -/
theorem flatMap_slotChildren_perm (hd : DistinctIds view.nodes) {slots : List Slot}
    (hslots : slots.Nodup)
    (hall : ∀ n ∈ view.nodes, ∀ slot, n.scope = some ⟨owner, slot⟩ → slot ∈ slots) :
    (slots.flatMap (view.slotChildren owner)).Perm (view.ownedBy owner) := by
  have hlists : (slots.map fun slot => some ⟨owner, slot⟩).flatMap view.children =
      slots.flatMap (view.slotChildren owner) := by
    rw [List.flatMap_map]
    rfl
  have hnodup : (slots.map fun slot => some (Scope.mk owner slot)).Nodup :=
    hslots.map fun slot slot' heq => (Scope.mk.inj (Option.some.inj heq)).2
  rw [← hlists]
  refine flatMap_children_perm hd hnodup (distinctIds_ownedBy hd).nodup fun n => ?_
  rw [mem_ownedBy, List.mem_map]
  refine and_congr_right fun hn => ⟨fun hown => ?_, ?_⟩
  · obtain ⟨⟨_, slot⟩, hscope, rfl⟩ := Option.map_eq_some_iff.mp hown
    exact ⟨slot, hall n hn slot hscope, hscope.symm⟩
  · rintro ⟨slot, -, hscope⟩
    exact owner?_of_scope hscope.symm

/-- **What an owner holds is the lists of its slots merged.** -/
theorem ownedBy_eq_mergeAll (hd : DistinctIds view.nodes) {slots : List Slot}
    (hslots : slots.Nodup)
    (hall : ∀ n ∈ view.nodes, ∀ slot, n.scope = some ⟨owner, slot⟩ → slot ∈ slots) :
    view.ownedBy owner = mergeAll (slots.map (view.slotChildren owner)) := by
  have hperm : (slots.map (view.slotChildren owner)).flatten.Perm (view.ownedBy owner) :=
    flatMap_slotChildren_perm hd hslots hall
  have hids : DistinctIds (slots.map (view.slotChildren owner)).flatten :=
    (hperm.map Node.id).nodup_iff.mpr (distinctIds_ownedBy hd)
  refine eq_of_perm_of_sorted (hperm.symm.trans (mergeAll_perm _).symm) (ownedBy_sorted hd)
    (mergeAll_sorted hids ?_)
  exact List.forall_mem_map.mpr fun slot _ => children_sorted hd

/-! ## Case slots -/

/-- No two nodes share a case slot of an owner. -/
def CasesApart (view : Containment) (owner : String) : Prop :=
  ∀ m ∈ view.nodes, ∀ n ∈ view.nodes, ∀ value,
    m.scope = some ⟨owner, .caseBranch value⟩ → n.scope = some ⟨owner, .caseBranch value⟩ → m = n

/-- **Case slots come in the order of the nodes in them**, where no two nodes
share one. -/
theorem CasesApart.caseSlots_sorted (h : view.CasesApart owner) (hd : DistinctIds view.nodes) :
    (view.caseSlots owner).Pairwise fun slot slot' => ∀ m ∈ view.nodes, ∀ n ∈ view.nodes,
      m.scope = some ⟨owner, slot⟩ → n.scope = some ⟨owner, slot'⟩ → m.precedes n = true := by
  rw [caseSlots_eq_filterMap, List.pairwise_filterMap]
  refine List.Pairwise.imp_of_mem (fun {a b} ha hb hab => ?_) (ownedBy_sorted hd)
  intro slot hslot slot' hslot' m hm n hn hmscope hnscope
  obtain ⟨value, rfl, hascope⟩ := (caseSlot?_eq_some_iff ha).mp hslot
  obtain ⟨value', rfl, hbscope⟩ := (caseSlot?_eq_some_iff hb).mp hslot'
  obtain rfl := h m hm a (mem_ownedBy.mp ha).1 value hmscope hascope
  obtain rfl := h n hn b (mem_ownedBy.mp hb).1 value' hnscope hbscope
  exact hab

/-- And so each comes once. -/
theorem CasesApart.caseSlots_nodup (h : view.CasesApart owner) (hd : DistinctIds view.nodes) :
    (view.caseSlots owner).Nodup := by
  refine List.Pairwise.imp_of_mem (fun {slot slot'} hslot _ hbefore => ?_) (h.caseSlots_sorted hd)
  rintro rfl
  obtain ⟨value, -, n, hn, hscope⟩ := mem_caseSlots.mp hslot
  have hself := hbefore n hn n hn hscope hscope
  exact not_precedes_of_precedes hself hself

/-! ## The whole view -/

/-- **An ordered partition**: what the lists of a containment view have in
common. -/
structure OrderedPartition (view : Containment) : Prop where
  /-- A node is in the list of its scope and in no other. -/
  mem_iff : ∀ n scope, n ∈ view.children scope ↔ n ∈ view.nodes ∧ n.scope = scope
  /-- The top level and the slots together hold each node once. -/
  perm : ∀ scopes : List Scope, scopes.Nodup →
    (∀ n ∈ view.nodes, ∀ scope, n.scope = some scope → scope ∈ scopes) →
    (view.root ++ scopes.flatMap fun scope => view.slotChildren scope.owner scope.slot).Perm
      view.nodes
  /-- Each list increases by sequence number, and by id among equal ones. -/
  increasing : ∀ scope, (view.children scope).Pairwise fun m n =>
    m.sequence < n.sequence ∨ m.sequence = n.sequence ∧ m.id < n.id
  /-- So do the lists of what owners hold, -/
  owned_increasing : ∀ owner, (view.ownedBy owner).Pairwise fun m n =>
    m.sequence < n.sequence ∨ m.sequence = n.sequence ∧ m.id < n.id
  /-- which are the lists of the owner's slots merged. -/
  owned_merged : ∀ owner (slots : List Slot), slots.Nodup →
    (∀ n ∈ view.nodes, ∀ slot, n.scope = some ⟨owner, slot⟩ → slot ∈ slots) →
    view.ownedBy owner = mergeAll (slots.map (view.slotChildren owner))
  /-- The lists that one pass over the nodes fills are these. -/
  indexed : (∀ scope, (Index.ofNodes view.nodes).children scope = view.children scope) ∧
    ∀ owner, (Index.ofNodes view.nodes).ownedBy owner = view.ownedBy owner
  /-- The order in which the nodes are given does not show. -/
  unordered : ∀ nodes : List Node, view.nodes.Perm nodes →
    (∀ scope, (mk nodes).children scope = view.children scope) ∧
      ∀ owner, (mk nodes).ownedBy owner = view.ownedBy owner ∧
        (mk nodes).caseSlots owner = view.caseSlots owner
  /-- The case slots of an owner are the occupied ones, -/
  case_iff : ∀ owner slot, slot ∈ view.caseSlots owner ↔
    ∃ value, slot = .caseBranch value ∧ ∃ n ∈ view.nodes, n.scope = some ⟨owner, slot⟩
  /-- each of them once and in the order of their nodes, where none is shared. -/
  cases_increasing : ∀ owner, view.CasesApart owner → (view.caseSlots owner).Nodup ∧
    (view.caseSlots owner).Pairwise fun slot slot' => ∀ m ∈ view.nodes, ∀ n ∈ view.nodes,
      m.scope = some ⟨owner, slot⟩ → n.scope = some ⟨owner, slot'⟩ →
      m.sequence < n.sequence ∨ m.sequence = n.sequence ∧ m.id < n.id

/-- **Containment is an ordered partition** of every list of nodes with
different ids. -/
theorem orderedPartition (hd : DistinctIds nodes) : (mk nodes).OrderedPartition where
  mem_iff _ _ := mem_children
  perm _ hscopes hall := root_append_perm hd hscopes hall
  increasing _ := (children_sorted hd).imp precedes_iff.mp
  owned_increasing _ := (ownedBy_sorted hd).imp precedes_iff.mp
  owned_merged _ _ hslots hall := ownedBy_eq_mergeAll hd hslots hall
  indexed := ⟨Index.children_eq nodes, Index.ownedBy_eq nodes⟩
  unordered nodes' hperm := by
    have howned (owner : String) : (mk nodes').ownedBy owner = (mk nodes).ownedBy owner :=
      (orderSiblings_eq_of_perm (hd.filter _) (hperm.filter _)).symm
    refine ⟨fun scope => ?_, fun owner => ⟨howned owner, ?_⟩⟩
    · exact (orderSiblings_eq_of_perm (hd.filter _) (hperm.filter _)).symm
    · rw [caseSlots_eq_filterMap, caseSlots_eq_filterMap, howned]
  case_iff _ _ := mem_caseSlots
  cases_increasing _ hcases :=
    ⟨hcases.caseSlots_nodup hd, (hcases.caseSlots_sorted hd).imp fun hbefore m hm n hn hslot hslot' =>
      precedes_iff.mp (hbefore m hm n hn hslot hslot')⟩

/-- Two cases with one sequence number, which come in the order of their ids, and
a node whose owner is not there. -/
theorem orderedPartition_withTies :
    let node (id : String) (scope : Option Scope) (sequence : Nat) : Node :=
      ⟨id, "action", scope, sequence, .origin, .empty⟩
    let nodes := [node "s" none 0, node "b" (some ⟨"s", .caseBranch "y"⟩) 2,
      node "a" (some ⟨"s", .caseBranch "x"⟩) 2, node "d" (some ⟨"s", .defaultBranch⟩) 1,
      node "f" (some ⟨"elsewhere", .body⟩) 2]
    let view := mk nodes
    DistinctIds nodes ∧ view.CasesApart "s" ∧
      view.caseSlots "s" = [.caseBranch "x", .caseBranch "y"] ∧ (view.caseSlots "s").Nodup ∧
      view.ownedBy "s" = mergeAll [view.slotChildren "s" (.caseBranch "y"),
        view.slotChildren "s" (.caseBranch "x"), view.slotChildren "s" .defaultBranch] := by
  intro node nodes view
  have hd : DistinctIds nodes := by
    change ["s", "b", "a", "d", "f"].Nodup
    decide
  have hsame : ∀ m ∈ nodes, ∀ n ∈ nodes, m.caseSlot?.isSome = true → m.scope = n.scope →
      m.id = n.id := by decide
  have hapart : view.CasesApart "s" := fun m hm n hn value hslot hslot' =>
    hd.eq hm hn (hsame m hm n hn (by rw [Node.caseSlot?, hslot]; rfl) (hslot.trans hslot'.symm))
  have hslots : ∀ n ∈ nodes, ∀ scope ∈ n.scope, scope.owner = "s" →
      scope.slot ∈ [.caseBranch "y", .caseBranch "x", .defaultBranch] := by decide
  have hview := orderedPartition hd
  exact ⟨hd, hapart, by decide, (hview.cases_increasing "s" hapart).1,
    hview.owned_merged "s" [.caseBranch "y", .caseBranch "x", .defaultBranch] (by decide)
      fun n hn slot hscope => hslots n hn ⟨"s", slot⟩ hscope rfl⟩

end Containment

end StepGraph
