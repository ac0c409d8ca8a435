import StepGraph.Graph.Basic
import Mathlib.Data.List.Nodup
import Mathlib.Logic.Relation

/-!
# Chains of owners

The chain of a scope lists the nodes that are passed on the way from owner
to owner up to the top level. A scope is grounded when it has a chain, that
is when every owner on the way is there and the way ends. Where ids are
different a scope has one chain at most (`Chain.unique`), no node lies on
its own chain (`Chain.not_mem_self`), and no chain is longer than the list
of nodes (`Chain.length_lt`). In these terms a node lies inside another
when the other is on its chain (`inside_iff_mem_chain`).
-/

namespace StepGraph

variable {nodes : List Node} {scope : Option Scope} {chain : List Node} {m n : Node}

/-! ## Ids -/

/-- No two nodes of a list have one id. -/
def DistinctIds (nodes : List Node) : Prop :=
  (nodes.map Node.id).Nodup

/-- An id belongs to one node. -/
theorem DistinctIds.eq (h : DistinctIds nodes) (hm : m ∈ nodes) (hn : n ∈ nodes)
    (hid : m.id = n.id) : m = n :=
  List.inj_on_of_nodup_map h hm hn hid

theorem DistinctIds.nodup (h : DistinctIds nodes) : nodes.Nodup :=
  List.Nodup.of_map _ h

/-- What a search by id finds has the id. -/
theorem mem_of_find?_id {id : String} (h : nodes.find? (·.id == id) = some n) :
    n ∈ nodes ∧ n.id = id :=
  ⟨List.mem_of_find?_eq_some h, by simpa using List.find?_some h⟩

/-- **Search by id.** Where ids are different, the node that is found is the
node that has the id. -/
theorem DistinctIds.find?_eq_some_iff (h : DistinctIds nodes) {id : String} :
    nodes.find? (·.id == id) = some n ↔ n ∈ nodes ∧ n.id = id := by
  refine ⟨mem_of_find?_id, fun ⟨hn, hid⟩ => ?_⟩
  obtain ⟨found, hfound⟩ : ∃ found, nodes.find? (·.id == id) = some found :=
    Option.isSome_iff_exists.mp (List.find?_isSome.mpr ⟨n, hn, by simpa using hid⟩)
  obtain ⟨hmem, hfid⟩ := mem_of_find?_id hfound
  rw [hfound, h.eq hmem hn (hfid.trans hid.symm)]

/-- A search by id fails where no node has the id. -/
theorem find?_id_eq_none_iff {id : String} :
    nodes.find? (·.id == id) = none ↔ ∀ n ∈ nodes, n.id ≠ id := by
  simp [List.find?_eq_none]

/-! ## Chains -/

/-- **The owner chain of a scope**: its owner, the owner's owner, and so on
up to the top level. -/
inductive Chain (nodes : List Node) : Option Scope → List Node → Prop
  /-- The top level has no owner. -/
  | top : Chain nodes none []
  /-- The owner comes first, then the owner's own chain. -/
  | up {scope : Scope} {owner : Node} {rest : List Node} :
      owner ∈ nodes → owner.id = scope.owner → Chain nodes owner.scope rest →
      Chain nodes (some scope) (owner :: rest)

/-- A scope whose chain of owners ends at the top level. -/
def Grounded (nodes : List Node) (scope : Option Scope) : Prop :=
  ∃ chain, Chain nodes scope chain

namespace Chain

/-- The nodes of a chain are nodes of the list. -/
theorem subset (h : Chain nodes scope chain) : chain ⊆ nodes := by
  induction h with
  | top => exact List.nil_subset _
  | up hmem _ _ ih => exact List.cons_subset.mpr ⟨hmem, ih⟩

/-- A chain is a chain in every list that has its nodes. -/
theorem mono {others : List Node} (h : Chain nodes scope chain) (hsub : chain ⊆ others) :
    Chain others scope chain := by
  induction h with
  | top => exact .top
  | up _ hid _ ih =>
    obtain ⟨hmem, hrest⟩ := List.cons_subset.mp hsub
    exact .up hmem hid (ih hrest)

/-- **A scope has one chain.** -/
theorem unique (hd : DistinctIds nodes) {other : List Node} (h : Chain nodes scope chain)
    (h' : Chain nodes scope other) : chain = other := by
  induction h generalizing other with
  | top => cases h'; rfl
  | up hmem hid _ ih =>
    cases h' with
    | up hmem' hid' hrest =>
      obtain rfl := hd.eq hmem hmem' (hid.trans hid'.symm)
      rw [ih hrest]

/-- The chain of a node on a chain is what comes behind the node. -/
theorem of_append {between rest : List Node} (h : Chain nodes scope (between ++ n :: rest)) :
    Chain nodes n.scope rest := by
  induction between generalizing scope with
  | nil => cases h; assumption
  | cons first between ih => cases h; exact ih ‹_›

/-- A node on a chain has a chain that is a part of it. -/
theorem exists_of_mem (h : Chain nodes scope chain) (hn : n ∈ chain) :
    ∃ between rest, chain = between ++ n :: rest ∧ Chain nodes n.scope rest := by
  obtain ⟨between, rest, rfl⟩ := List.append_of_mem hn
  exact ⟨between, rest, rfl, h.of_append⟩

/-- **No node lies on its own chain**: the chain behind it would be its
chain again, and shorter. -/
theorem not_mem_self (hd : DistinctIds nodes) (h : Chain nodes n.scope chain) : n ∉ chain := by
  intro hn
  obtain ⟨between, rest, rfl, hrest⟩ := h.exists_of_mem hn
  have hlen : (between ++ n :: rest).length = rest.length := by rw [h.unique hd hrest]
  simp only [List.length_append, List.length_cons] at hlen
  omega

/-- A chain passes no node twice. -/
theorem nodup (hd : DistinctIds nodes) (h : Chain nodes scope chain) : chain.Nodup := by
  induction h with
  | top => exact List.nodup_nil
  | up _ _ hrest ih => exact List.nodup_cons.mpr ⟨hrest.not_mem_self hd, ih⟩

/-- **A node's chain is shorter than the list.** -/
theorem length_lt (hd : DistinctIds nodes) (hn : n ∈ nodes) (h : Chain nodes n.scope chain) :
    chain.length < nodes.length := by
  have hnodup : (n :: chain).Nodup := List.nodup_cons.mpr ⟨h.not_mem_self hd, h.nodup hd⟩
  exact hnodup.length_le_of_subset (List.cons_subset.mpr ⟨hn, h.subset⟩)

/-- The chain of a scope begins with the scope's owner. -/
theorem exists_of_owner {scope : Scope} (hd : DistinctIds nodes) {owner : Node}
    (hmem : owner ∈ nodes) (hid : owner.id = scope.owner) (h : Chain nodes (some scope) chain) :
    ∃ rest, chain = owner :: rest ∧ Chain nodes owner.scope rest := by
  cases h with
  | up hmem' hid' hrest =>
    obtain rfl := hd.eq hmem hmem' (hid.trans hid'.symm)
    exact ⟨_, rfl, hrest⟩

end Chain

/-! ## Lying inside -/

/-- A node is the owner of another one. -/
def Owns (nodes : List Node) (owner node : Node) : Prop :=
  owner ∈ nodes ∧ node.owner? = some owner.id

/-- `Inside nodes m n` says that `n` lies inside `m`, at any depth. -/
def Inside (nodes : List Node) : Node → Node → Prop :=
  Relation.TransGen (Owns nodes)

/-- The owner of a node is the one that its scope names. -/
theorem owner?_of_scope {scope : Scope} (h : n.scope = some scope) :
    n.owner? = some scope.owner := by
  rw [Node.owner?, h]
  rfl

/-- A node at the top level has no owner. -/
theorem owner?_of_top (h : n.scope = none) : n.owner? = none := by
  rw [Node.owner?, h]
  rfl

/-- An owner is the owner that the scope names. -/
theorem owns_iff :
    Owns nodes m n ↔ m ∈ nodes ∧ ∃ scope, n.scope = some scope ∧ m.id = scope.owner := by
  simp only [Owns, Node.owner?, Option.map_eq_some_iff, eq_comm (a := m.id)]

/-- **A node lies inside the nodes on its chain**, and inside no others. -/
theorem inside_iff_mem_chain (hd : DistinctIds nodes) (h : Chain nodes n.scope chain) :
    Inside nodes m n ↔ m ∈ chain := by
  constructor
  · -- along the owners outwards, each of which begins the chain that is left
    intro hin
    induction hin generalizing chain with
    | single hown =>
      obtain ⟨hmem, scope, hscope, hid⟩ := owns_iff.mp hown
      rw [hscope] at h
      obtain ⟨rest, rfl, -⟩ := h.exists_of_owner hd hmem hid
      exact List.mem_cons_self
    | @tail b c _ hown ih =>
      obtain ⟨hmem, scope, hscope, hid⟩ := owns_iff.mp hown
      rw [hscope] at h
      obtain ⟨rest, rfl, hrest⟩ := h.exists_of_owner hd hmem hid
      exact List.mem_cons_of_mem _ (ih hrest)
  · -- along the chain, whose first node is the owner
    intro hmem
    generalize hscope : n.scope = scope at h
    induction h generalizing n with
    | top => cases hmem
    | @up scope owner rest hown hid hrest ih =>
      have hedge : Owns nodes owner n := owns_iff.mpr ⟨hown, scope, hscope, hid⟩
      rcases List.mem_cons.mp hmem with rfl | hmem
      · exact .single hedge
      · exact .tail (ih hmem rfl) hedge

/-- No grounded node lies inside itself. -/
theorem not_inside_self (hd : DistinctIds nodes) (h : Grounded nodes n.scope) :
    ¬ Inside nodes n n := by
  obtain ⟨chain, hchain⟩ := h
  rw [inside_iff_mem_chain hd hchain]
  exact hchain.not_mem_self hd

end StepGraph
