import StepGraph.Proofs.Graph.Rooted
import StepGraph.Proofs.Graph.Siblings

/-!
# Descendants

Down to a depth, the descendants of an owner are the nodes on whose chain
the owner stands at most that deep (`mem_descendantsTo_iff`). No chain is
longer than the list of nodes, so the descendants are all nodes on whose
chain the owner stands (`mem_descendants_iff`). Among rooted nodes the depth
is never met (`Rooted.descendants_eq`), and going through the owners that are
still to be asked, without any bound on how many there will be, ends with the
same nodes in the same order (`Rooted.collects_descendants`).
-/

namespace StepGraph

variable {nodes chain : List Node} {m n : Node} {id : String}

/-- A node is owned when its chain begins with its owner. -/
theorem owner?_eq_some_iff (h : Chain nodes n.scope chain) :
    n.owner? = some id ↔ ∃ owner rest, chain = owner :: rest ∧ owner.id = id := by
  rw [Node.owner?]
  generalize n.scope = scope at h
  cases h with
  | top => simp
  | up hmem hid hrest =>
    rw [Option.map_some, Option.some.injEq]
    refine ⟨fun heq => ⟨_, _, rfl, hid.trans heq⟩, ?_⟩
    rintro ⟨_, _, hchain, hid'⟩
    rw [← hid, ← hid', (List.cons.inj hchain).1]

/-- **Descendants down to a depth** have the owner on their chain, behind
fewer nodes than the depth. -/
theorem mem_descendantsTo_iff (hd : DistinctIds nodes) {depth : Nat} (hm : m ∈ nodes)
    (h : Chain nodes m.scope chain) :
    m ∈ (Containment.mk nodes).descendantsTo depth id ↔
      ∃ between owner rest, chain = between ++ owner :: rest ∧ owner.id = id ∧
        between.length < depth := by
  induction depth generalizing id with
  | zero => simp [Containment.descendantsTo]
  | succ depth ih =>
    simp only [Containment.descendantsTo, List.mem_append, List.mem_flatMap, List.mem_reverse,
      Containment.mem_ownedBy]
    constructor
    · rintro (⟨-, howner⟩ | ⟨child, ⟨hchild, howner⟩, hmem⟩)
      · obtain ⟨owner, rest, rfl, hid⟩ := (owner?_eq_some_iff h).mp howner
        exact ⟨[], owner, rest, rfl, hid, Nat.succ_pos _⟩
      · obtain ⟨between, owner, rest, rfl, hid, hlt⟩ := ih.mp hmem
        -- the node that the descent met is the one on the chain
        obtain rfl : owner = child := hd.eq (h.subset (by simp)) hchild hid
        obtain ⟨top, above, rfl, htop⟩ := (owner?_eq_some_iff h.of_append).mp howner
        exact ⟨between ++ [owner], top, above, by simp, htop, by simpa using hlt⟩
    · rintro ⟨between, owner, rest, rfl, hid, hlt⟩
      rcases List.eq_nil_or_concat between with rfl | ⟨below, child, rfl⟩
      · exact .inl ⟨hm, (owner?_eq_some_iff h).mpr ⟨owner, rest, rfl, hid⟩⟩
      · have hsplit : below.concat child ++ owner :: rest = below ++ child :: owner :: rest := by
          simp
        rw [hsplit] at h ih
        have hchild : child ∈ nodes := h.subset (by simp)
        refine .inr ⟨child, ⟨hchild, ?_⟩, ?_⟩
        · exact (owner?_eq_some_iff h.of_append).mpr ⟨owner, rest, rfl, hid⟩
        · refine ih.mpr ⟨below, child, owner :: rest, rfl, rfl, ?_⟩
          simpa using hlt

/-- **The descendants of an owner are the nodes on whose chain it stands.** -/
theorem mem_descendants_iff (hd : DistinctIds nodes) (hm : m ∈ nodes)
    (h : Chain nodes m.scope chain) :
    m ∈ (Containment.mk nodes).descendants id ↔ ∃ owner ∈ chain, owner.id = id := by
  rw [Containment.descendants, mem_descendantsTo_iff hd hm h]
  constructor
  · rintro ⟨between, owner, rest, rfl, hid, -⟩
    exact ⟨owner, List.mem_append_right _ List.mem_cons_self, hid⟩
  · rintro ⟨owner, hmem, hid⟩
    obtain ⟨between, rest, rfl, -⟩ := h.exists_of_mem hmem
    have hlt := h.length_lt hd hm
    simp only [List.length_append, List.length_cons] at hlt
    refine ⟨between, owner, rest, rfl, hid, ?_⟩
    change between.length < nodes.length
    omega

/-- Descendants are nodes of the list. -/
theorem mem_of_mem_descendantsTo {depth : Nat}
    (h : m ∈ (Containment.mk nodes).descendantsTo depth id) : m ∈ nodes := by
  induction depth generalizing id with
  | zero => simp [Containment.descendantsTo] at h
  | succ depth ih =>
    simp only [Containment.descendantsTo, List.mem_append, List.mem_flatMap, List.mem_reverse,
      Containment.mem_ownedBy] at h
    obtain ⟨hm, -⟩ | ⟨child, -, hmem⟩ := h
    · exact hm
    · exact ih hmem

/-! ## Owners still to be asked -/

/-- **Collecting what lies inside.** The first pending owner is asked for what
it owns, and this is pending before all others, the last node first. Nothing
bounds the number of steps. -/
inductive Collects (view : Containment) : List String → List Node → Prop
  | done : Collects view [] []
  | step {owner : String} {pending : List String} {found : List Node} :
      Collects view ((view.ownedBy owner).reverse.map Node.id ++ pending) found →
      Collects view (owner :: pending) (view.ownedBy owner ++ found)

/-- Owners that can each be asked before whatever is pending can be asked in a
row. -/
theorem Collects.flatMap {view : Containment} {owners : List Node} {inside : Node → List Node}
    (h : ∀ n ∈ owners, ∀ {pending found}, Collects view pending found →
      Collects view (n.id :: pending) (inside n ++ found))
    {pending : List String} {found : List Node} (hpending : Collects view pending found) :
    Collects view (owners.map Node.id ++ pending) (owners.flatMap inside ++ found) := by
  induction owners with
  | nil => exact hpending
  | cons n rest ih =>
    obtain ⟨hn, hrest⟩ := List.forall_mem_cons.mp h
    rw [List.flatMap_cons, List.append_assoc]
    exact hn (ih hrest)

namespace Rooted

/-- **The depth is never met**: the descendants of a node are what it owns and
the descendants of these. -/
theorem descendants_eq (h : Rooted nodes) :
    ∀ n ∈ nodes, (Containment.mk nodes).descendants n.id =
      (Containment.mk nodes).ownedBy n.id ++
        ((Containment.mk nodes).ownedBy n.id).reverse.flatMap fun m =>
          (Containment.mk nodes).descendants m.id := by
  have hinside : LooksInside nodes fun f n =>
      (Containment.mk nodes).ownedBy n.id ++
        ((Containment.mk nodes).ownedBy n.id).reverse.flatMap f := by
    intro n hn f g hfg
    refine congrArg (_ ++ ·) (List.flatMap_congr fun m hm => ?_)
    obtain ⟨hmem, hown⟩ := Containment.mem_ownedBy.mp (List.mem_reverse.mp hm)
    exact hfg m hmem hown
  let bounded : Nat → Node → List Node := fun depth n =>
    (Containment.mk nodes).descendantsTo depth n.id
  have hsolves : ∀ n ∈ nodes, bounded nodes.length n =
      (Containment.mk nodes).ownedBy n.id ++
        ((Containment.mk nodes).ownedBy n.id).reverse.flatMap (bounded nodes.length) :=
    h.solves_of_bounded hinside fun _ _ => rfl
  exact hsolves

/-- **Asking one owner after the other ends**, with the descendants. -/
theorem collects_descendants (h : Rooted nodes) (hn : n ∈ nodes) :
    Collects ⟨nodes⟩ [n.id] ((Containment.mk nodes).descendants n.id) := by
  have hcollects : ∀ n ∈ nodes, ∀ {pending found}, Collects ⟨nodes⟩ pending found →
      Collects ⟨nodes⟩ (n.id :: pending) ((Containment.mk nodes).descendants n.id ++ found) := by
    refine h.induction fun n hn ih pending found hpending => ?_
    rw [h.descendants_eq n hn, List.append_assoc]
    refine .step (.flatMap (fun m hm => ?_) hpending)
    obtain ⟨hmem, hown⟩ := Containment.mem_ownedBy.mp (List.mem_reverse.mp hm)
    exact ih m hmem hown
  simpa using hcollects n hn .done

end Rooted

end StepGraph
