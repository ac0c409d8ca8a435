import StepGraph.Proofs.Graph.Nesting
import StepGraph.Proofs.Graph.Partition
import StepGraph.Script.Compilation

/-!
# The walk through a graph

A generator that goes from a node to the nodes of its declared slots meets
all that the node owns, since every place that is taken is declared
(`Nested.slot_declared`), and meets it once, since no slot is declared twice
(`Nested.declaredSlots_nodup`). So a walk in depth passes exactly the nodes
that have only nodes of registered kinds around them (`mem_walk_iff`), each
of them once (`walk_nodup`).
-/

namespace StepGraph

variable {registry : Registry} {nodes : List Node} {n m a : Node}

/-- **A live node** has no node of an unregistered kind around it. -/
def Live (registry : Registry) (nodes : List Node) (n : Node) : Prop :=
  ∀ a, Inside nodes a n → registry.get? a.kind ≠ none

/-- Nodes at the top level are live. -/
theorem Live.of_top (htop : n.scope = none) : Live registry nodes n :=
  fun _ hin => absurd hin (not_inside_of_top htop)

/-- What a live node of a registered kind owns is live. -/
theorem Live.of_owner? (hd : DistinctIds nodes) (h : Live registry nodes n) (hn : n ∈ nodes)
    (hbound : registry.get? n.kind ≠ none) (hown : m.owner? = some n.id) :
    Live registry nodes m := by
  intro a hin
  rcases (inside_iff_of_owner? hd hn hown).mp hin with rfl | hin
  · exact hbound
  · exact h a hin

/-! ## Declared slots -/

namespace Nested

/-- A node in an owner of a registered kind is in a legal place. -/
theorem legallyPlaced (h : Nested registry nodes) {kind : Kind} (hn : n ∈ nodes)
    (hbound : registry.get? n.kind = some kind) (hm : m ∈ nodes) (hown : m.owner? = some n.id) :
    LegallyPlaced registry nodes m := by
  refine (h.placed m hm).resolve_left ?_
  rintro ⟨owner, ⟨hmem, howner⟩, hunbound⟩
  obtain rfl := h.distinct.eq hmem hn (Option.some.inj (howner.symm.trans hown))
  rw [hunbound] at hbound
  cases hbound

/-- **Every place that is taken is declared.** -/
theorem slot_declared (h : Nested registry nodes) {b : Builtin} {slot : Slot} (hn : n ∈ nodes)
    (hbound : registry.get? n.kind = some b.kind) (hm : m ∈ nodes)
    (hscope : m.scope = some ⟨n.id, slot⟩) : slot ∈ b.kind.declaredSlots n ⟨nodes⟩ := by
  have hplace := h.legallyPlaced hn hbound hm (owner?_of_scope hscope)
  have hb : registry.builtin? n.kind = some b := Registry.builtin?_of_get? hbound
  rw [LegallyPlaced, hscope] at hplace
  obtain ⟨owner, hmem, hid, b', hb', hslot⟩ := hplace.of_owner
  obtain rfl := h.distinct.eq (mem_withoutMoving.mp hmem).1 hn hid
  obtain rfl : b' = b := Option.some.inj (hb'.symm.trans hb)
  rw [Builtin.declaredSlots_eq, List.mem_append]
  rcases hslot with ⟨hfixed, -⟩ | ⟨rfl, -, rfl, -⟩
  · exact .inr hfixed
  · -- a switch declares the slot because the case itself is in it
    rw [if_pos rfl, Containment.mem_caseSlots]
    exact .inl ⟨_, rfl, m, hm, hscope⟩

/-- What is in the slot of a case is the case of this value. -/
theorem case_of_caseBranch (h : Nested registry nodes) {kind : Kind} {value : String}
    (hn : n ∈ nodes) (hbound : registry.get? n.kind = some kind) (hm : m ∈ nodes)
    (hscope : m.scope = some ⟨n.id, .caseBranch value⟩) :
    registry.builtin? m.kind = some .caseNode ∧ Builtin.caseValue m.payload = value := by
  have hplace := h.legallyPlaced hn hbound hm (owner?_of_scope hscope)
  rw [LegallyPlaced, hscope] at hplace
  obtain ⟨_, -, -, _, -, ⟨hslot, -⟩ | ⟨-, hkind, hvalue, -⟩⟩ := hplace.of_owner
  · cases Builtin.isCase_of_mem_fixedSlots hslot
  · exact ⟨hkind, (Slot.caseBranch.inj hvalue).symm⟩

/-- The slot of a case holds one node. -/
theorem eq_of_caseBranch (h : Nested registry nodes) {kind : Kind} {value : String}
    (hn : n ∈ nodes) (hbound : registry.get? n.kind = some kind) (hm : m ∈ nodes) (ha : a ∈ nodes)
    (hscope : m.scope = some ⟨n.id, .caseBranch value⟩)
    (hscope' : a.scope = some ⟨n.id, .caseBranch value⟩) : m = a := by
  have hplace := h.legallyPlaced hn hbound hm (owner?_of_scope hscope)
  rw [LegallyPlaced, hscope] at hplace
  by_contra hne
  have hother : a ∈ withoutMoving nodes (some m.id) :=
    mem_withoutMoving.mpr ⟨ha, fun hid => hne (h.distinct.eq ha hm (Option.some.inj hid)).symm⟩
  exact hplace.free_of_caseBranch a hother hscope'

/-- The slot of a case holds one node, or none. -/
theorem slotChildren_caseBranch (h : Nested registry nodes) {kind : Kind} (hn : n ∈ nodes)
    (hbound : registry.get? n.kind = some kind) (value : String) :
    (Containment.mk nodes).slotChildren n.id (.caseBranch value) = [] ∨
      ∃ m, (Containment.mk nodes).slotChildren n.id (.caseBranch value) = [m] := by
  have hnodup : ((Containment.mk nodes).slotChildren n.id (.caseBranch value)).Nodup :=
    Containment.children_nodup h.distinct
  cases hchildren : (Containment.mk nodes).slotChildren n.id (.caseBranch value) with
  | nil => exact .inl rfl
  | cons m rest =>
    have hread {a : Node} (ha : a ∈ m :: rest) :
        a ∈ nodes ∧ a.scope = some ⟨n.id, .caseBranch value⟩ := by
      rw [← hchildren] at ha
      exact Containment.mem_slotChildren.mp ha
    obtain ⟨hm, hscope⟩ := hread List.mem_cons_self
    rw [hchildren, List.nodup_cons] at hnodup
    have hrest : rest = [] := by
      refine List.eq_nil_iff_forall_not_mem.mpr fun a ha => ?_
      obtain ⟨ha', hscope'⟩ := hread (List.mem_cons_of_mem _ ha)
      obtain rfl := h.eq_of_caseBranch hn hbound hm ha' hscope hscope'
      exact hnodup.1 ha
    exact .inr ⟨m, by rw [hrest]⟩

/-- No two nodes share a case slot of a node of a registered kind, -/
theorem casesApart (h : Nested registry nodes) {kind : Kind} (hn : n ∈ nodes)
    (hbound : registry.get? n.kind = some kind) : (Containment.mk nodes).CasesApart n.id :=
  fun _ hm _ ha _ hscope hscope' => h.eq_of_caseBranch hn hbound hm ha hscope hscope'

/-- so none is listed twice. -/
theorem caseSlots_nodup (h : Nested registry nodes) {kind : Kind} (hn : n ∈ nodes)
    (hbound : registry.get? n.kind = some kind) :
    ((Containment.mk nodes).caseSlots n.id).Nodup :=
  (h.casesApart hn hbound).caseSlots_nodup h.distinct

/-- **No slot is declared twice.** -/
theorem declaredSlots_nodup (h : Nested registry nodes) {b : Builtin} (hn : n ∈ nodes)
    (hbound : registry.get? n.kind = some b.kind) :
    (b.kind.declaredSlots n ⟨nodes⟩).Nodup := by
  rw [Builtin.declaredSlots_eq, List.nodup_append]
  have hfixed : b.fixedSlots.Nodup := by cases b <;> decide
  refine ⟨?_, hfixed, ?_⟩
  · split
    · exact h.caseSlots_nodup hn hbound
    · exact List.nodup_nil
  · rintro slot hcase _ hslot rfl
    have hplain := Builtin.isCase_of_mem_fixedSlots hslot
    split at hcase
    · obtain ⟨value, rfl, -⟩ := Containment.mem_caseSlots.mp hcase
      cases hplain
    · cases hcase

end Nested

/-! ## Walking in depth -/

/-- The nodes of the declared slots of a node, slot by slot. -/
def declaredChildren (registry : Registry) (view : Containment) (n : Node) : List Node :=
  match registry.get? n.kind with
  | none => []
  | some kind => (kind.declaredSlots n view).flatMap (view.slotChildren n.id)

/-- **A walk in depth**: before a node come the walks of the nodes in its
declared slots. -/
def IsWalk (registry : Registry) (nodes : List Node) (walk : Node → List Node) : Prop :=
  ∀ n ∈ nodes, walk n = (declaredChildren registry ⟨nodes⟩ n).flatMap walk ++ [n]

/-- **The nodes of the declared slots are the nodes that a node owns**, where
its kind is registered. -/
theorem mem_declaredChildren_iff (h : Nested registry nodes) (hreg : registry.OnlyBuiltins)
    (hn : n ∈ nodes) :
    m ∈ declaredChildren registry ⟨nodes⟩ n ↔
      m ∈ nodes ∧ m.owner? = some n.id ∧ registry.get? n.kind ≠ none := by
  rw [declaredChildren]
  cases hget : registry.get? n.kind with
  | none => simp
  | some kind =>
    obtain ⟨b, rfl⟩ := hreg _ _ hget
    simp only [List.mem_flatMap, Containment.mem_slotChildren]
    constructor
    · rintro ⟨slot, -, hm, hscope⟩
      exact ⟨hm, owner?_of_scope hscope, nofun⟩
    · rintro ⟨hm, hown, -⟩
      obtain ⟨⟨owner, slot⟩, hscope, rfl⟩ := Option.map_eq_some_iff.mp hown
      exact ⟨slot, h.slot_declared hn hget hm hscope, hm, hscope⟩

/-- No node is there twice among those of the declared slots. -/
theorem declaredChildren_nodup (h : Nested registry nodes) (hreg : registry.OnlyBuiltins)
    (hn : n ∈ nodes) : (declaredChildren registry ⟨nodes⟩ n).Nodup := by
  rw [declaredChildren]
  cases hget : registry.get? n.kind with
  | none => exact List.nodup_nil
  | some kind =>
    obtain ⟨b, rfl⟩ := hreg _ _ hget
    rw [List.nodup_flatMap]
    refine ⟨fun slot _ => Containment.children_nodup h.distinct, ?_⟩
    -- a node is in one slot only
    refine (h.declaredSlots_nodup hn hget).imp fun {slot slot'} hne => ?_
    intro m hm hm'
    have hscope := (Containment.mem_slotChildren.mp hm).2
    have hscope' := (Containment.mem_slotChildren.mp hm').2
    rw [hscope] at hscope'
    exact hne (Scope.mk.inj (Option.some.inj hscope')).2

/-- Siblings lie apart: a node that is one of them or lies inside it is none
of the others and does not lie inside one. -/
theorem eq_of_within (hd : DistinctIds nodes) {x y : Node} (hground : Grounded nodes m.scope)
    (hown : x.owner? = y.owner?) (hmx : m = x ∨ Inside nodes x m)
    (hmy : m = y ∨ Inside nodes y m) : x = y := by
  obtain ⟨chain, hchain⟩ := hground
  -- on the list of `m` and its chain both come right before the chain of their owner
  have hsplit {z : Node} (hmz : m = z ∨ Inside nodes z m) :
      ∃ before rest, m :: chain = before ++ z :: rest ∧ Chain nodes z.scope rest := by
    rcases hmz with rfl | hin
    · exact ⟨[], chain, rfl, hchain⟩
    · have hmem := (inside_iff_mem_chain hd hchain).mp hin
      obtain ⟨before, rest, hsplit, hrest⟩ := hchain.exists_of_mem hmem
      exact ⟨m :: before, rest, by rw [hsplit, List.cons_append], hrest⟩
  obtain ⟨before, rest, heq, hrest⟩ := hsplit hmx
  obtain ⟨before', rest', heq', hrest'⟩ := hsplit hmy
  have hsame : rest = rest' := by
    have howner : y.scope.map Scope.owner = x.scope.map Scope.owner := hown.symm
    generalize x.scope = sx at hrest howner
    generalize y.scope = sy at hrest' howner
    cases hrest with
    | top =>
      cases hrest' with
      | top => rfl
      | up => cases howner
    | up hmem hid hup =>
      cases hrest' with
      | top => cases howner
      | up hmem' hid' hup' =>
        have hids := Option.some.inj howner
        obtain rfl := hd.eq hmem hmem' ((hid.trans hids.symm).trans hid'.symm)
        rw [hup.unique hd hup']
  rw [← hsame, heq, List.append_cons before, List.append_cons before'] at heq'
  have hlast := List.append_cancel_right heq'
  exact (List.append_singleton_inj.mp hlast).2

section Walk

variable {walk : Node → List Node}

/-- A walk passes the node itself and nodes inside it. -/
theorem within_of_mem_walk (h : Nested registry nodes) (hreg : registry.OnlyBuiltins)
    (hw : IsWalk registry nodes walk) :
    ∀ n ∈ nodes, ∀ m ∈ walk n, m ∈ nodes ∧ (m = n ∨ Inside nodes n m) := by
  refine h.rooted.induction fun n hn ih m hm => ?_
  rw [hw n hn, List.mem_append, List.mem_flatMap, List.mem_singleton] at hm
  rcases hm with ⟨child, hchild, hm⟩ | rfl
  · obtain ⟨hchild, hown, -⟩ := (mem_declaredChildren_iff h hreg hn).mp hchild
    obtain ⟨hmem, hwithin⟩ := ih child hchild hown m hm
    exact ⟨hmem, .inr (inside_owner hn hown hwithin)⟩
  · exact ⟨hn, .inl rfl⟩

/-- From a live node a walk passes live nodes only. -/
theorem live_of_mem_walk (h : Nested registry nodes) (hreg : registry.OnlyBuiltins)
    (hw : IsWalk registry nodes walk) :
    ∀ n ∈ nodes, Live registry nodes n → ∀ m ∈ walk n, Live registry nodes m := by
  refine h.rooted.induction fun n hn ih hlive m hm => ?_
  rw [hw n hn, List.mem_append, List.mem_flatMap, List.mem_singleton] at hm
  rcases hm with ⟨child, hchild, hm⟩ | rfl
  · obtain ⟨hchild, hown, hbound⟩ := (mem_declaredChildren_iff h hreg hn).mp hchild
    exact ih child hchild hown (hlive.of_owner? h.distinct hn hbound hown) m hm
  · exact hlive

/-- Where a walk passes a node it passes the nodes in its declared slots. -/
theorem mem_walk_of_mem_declaredChildren (h : Nested registry nodes) (hreg : registry.OnlyBuiltins)
    (hw : IsWalk registry nodes walk) :
    ∀ n ∈ nodes, ∀ a ∈ walk n, ∀ m ∈ declaredChildren registry ⟨nodes⟩ a, m ∈ walk n := by
  refine h.rooted.induction fun n hn ih a ha m hm => ?_
  rw [hw n hn, List.mem_append, List.mem_flatMap, List.mem_singleton] at ha ⊢
  -- the node is passed below a child, or it is where the walk is
  rcases ha with ⟨child, hchild, ha⟩ | rfl
  · obtain ⟨hmem, hown, -⟩ := (mem_declaredChildren_iff h hreg hn).mp hchild
    exact .inl ⟨child, hchild, ih child hmem hown a ha m hm⟩
  · obtain ⟨hmem, -, -⟩ := (mem_declaredChildren_iff h hreg hn).mp hm
    refine .inl ⟨m, hm, ?_⟩
    rw [hw m hmem]
    exact List.mem_append_right _ (List.mem_singleton_self m)

/-- Walks from siblings have no node in common. -/
theorem nodup_flatMap_walk (h : Nested registry nodes) (hreg : registry.OnlyBuiltins)
    (hw : IsWalk registry nodes walk) {siblings : List Node} {owner : Option String}
    (hnodup : siblings.Nodup) (hsiblings : ∀ n ∈ siblings, n ∈ nodes ∧ n.owner? = owner)
    (hwalks : ∀ n ∈ siblings, (walk n).Nodup) : (siblings.flatMap walk).Nodup := by
  rw [List.nodup_flatMap]
  refine ⟨hwalks, List.Pairwise.imp_of_mem (fun {x y} hx hy hne => ?_) hnodup⟩
  obtain ⟨hx, hxown⟩ := hsiblings x hx
  obtain ⟨hy, hyown⟩ := hsiblings y hy
  intro m hmx hmy
  obtain ⟨hm, hwithin⟩ := within_of_mem_walk h hreg hw x hx m hmx
  have hwithin' := (within_of_mem_walk h hreg hw y hy m hmy).2
  have hground := h.grounded m hm
  exact hne (eq_of_within h.distinct hground (hxown.trans hyown.symm) hwithin hwithin')

/-- A walk passes no node twice. -/
theorem walk_node_nodup (h : Nested registry nodes) (hreg : registry.OnlyBuiltins)
    (hw : IsWalk registry nodes walk) : ∀ n ∈ nodes, (walk n).Nodup := by
  refine h.rooted.induction fun n hn ih => ?_
  have hkids : ∀ child ∈ declaredChildren registry ⟨nodes⟩ n,
      child ∈ nodes ∧ child.owner? = some n.id := fun child hchild =>
    have hmem := (mem_declaredChildren_iff h hreg hn).mp hchild
    ⟨hmem.1, hmem.2.1⟩
  rw [hw n hn, List.nodup_append]
  refine ⟨?_, List.nodup_singleton n, ?_⟩
  · exact nodup_flatMap_walk h hreg hw (declaredChildren_nodup h hreg hn) hkids
      fun child hchild => ih child (hkids child hchild).1 (hkids child hchild).2
  · -- a node that came up in a walk below it would lie inside itself
    rintro m hm _ hself rfl
    rw [List.mem_singleton] at hself
    subst hself
    obtain ⟨child, hchild, hm⟩ := List.mem_flatMap.mp hm
    obtain ⟨hchild, hown⟩ := hkids child hchild
    have hwithin := (within_of_mem_walk h hreg hw child hchild m hm).2
    have hself : Inside nodes m m := inside_owner hn hown hwithin
    exact not_inside_self h.distinct (h.grounded m hn) hself

/-- Walks in depth are the same. -/
theorem IsWalk.unique (h : Nested registry nodes) (hreg : registry.OnlyBuiltins)
    (hw : IsWalk registry nodes walk) {walk' : Node → List Node}
    (hw' : IsWalk registry nodes walk') : ∀ n ∈ nodes, walk n = walk' n := by
  refine h.rooted.induction fun n hn ih => ?_
  rw [hw n hn, hw' n hn]
  congr 1
  refine List.flatMap_congr fun m hm => ?_
  obtain ⟨hm, hown, -⟩ := (mem_declaredChildren_iff h hreg hn).mp hm
  exact ih m hm hown

/-! ## Walking from the top level -/

/-- **A walk from the top level passes exactly the live nodes.** -/
theorem mem_walk_iff (h : Nested registry nodes) (hreg : registry.OnlyBuiltins)
    (hw : IsWalk registry nodes walk) :
    m ∈ (Containment.mk nodes).root.flatMap walk ↔ m ∈ nodes ∧ Live registry nodes m := by
  rw [List.mem_flatMap]
  constructor
  · rintro ⟨n, hroot, hm⟩
    obtain ⟨hn, htop⟩ := Containment.mem_children.mp hroot
    exact ⟨(within_of_mem_walk h hreg hw n hn m hm).1,
      live_of_mem_walk h hreg hw n hn (.of_top htop) m hm⟩
  · rintro ⟨hm, hlive⟩
    obtain ⟨chain, hchain⟩ := h.grounded m hm
    -- along the chain, from the top level down, each node is passed after its owner
    have hall : ∀ a ∈ chain, registry.get? a.kind ≠ none := fun a ha =>
      hlive a ((inside_iff_mem_chain h.distinct hchain).mpr ha)
    clear hlive
    generalize hscope : m.scope = scope at hchain
    induction hchain generalizing m with
    | top =>
      refine ⟨m, Containment.mem_children.mpr ⟨hm, hscope⟩, ?_⟩
      rw [hw m hm]
      exact List.mem_append_right _ (List.mem_singleton_self m)
    | @up scope owner rest hmem hid hrest ih =>
      obtain ⟨hbound, hall⟩ := List.forall_mem_cons.mp hall
      obtain ⟨n, hroot, howner⟩ := ih hmem hall rfl
      have hn := (Containment.mem_children.mp hroot).1
      have hown : m.owner? = some owner.id := by rw [owner?_of_scope hscope, hid]
      exact ⟨n, hroot, mem_walk_of_mem_declaredChildren h hreg hw n hn owner howner m
        ((mem_declaredChildren_iff h hreg hmem).mpr ⟨hm, hown, hbound⟩)⟩

/-- **A walk from the top level passes no node twice.** -/
theorem walk_nodup (h : Nested registry nodes) (hreg : registry.OnlyBuiltins)
    (hw : IsWalk registry nodes walk) : ((Containment.mk nodes).root.flatMap walk).Nodup := by
  have hroot : ∀ n ∈ (Containment.mk nodes).root, n ∈ nodes ∧ n.owner? = none := by
    intro n hn
    obtain ⟨hn, htop⟩ := Containment.mem_children.mp hn
    exact ⟨hn, owner?_of_top htop⟩
  exact nodup_flatMap_walk h hreg hw (Containment.children_nodup h.distinct) hroot
    fun n hn => walk_node_nodup h hreg hw n (hroot n hn).1

end Walk

end StepGraph
