import StepGraph.Proofs.Graph.Chain
import StepGraph.Store.Edit

/-!
# Rooted nodes

Nodes are rooted when their ids are different and every chain of owners ends
at the top level (`Rooted`). It is what nesting asks of any nodes, whatever
their kinds are. Rooted nodes stay so with one more node whose owner is there
(`Rooted.append`), with fewer nodes where none loses its owner
(`Rooted.filter`), and when a node is brought to a place outside itself
(`Rooted.rescope`). What is said of them is proved from the inside out
(`Rooted.induction`), and a recursion from the inside out that is bounded in
depth never meets its bound (`Rooted.solves_of_bounded`).
-/

namespace StepGraph

variable {nodes : List Node} {scope : Option Scope} {chain : List Node} {m n : Node}

/-- **Rooted nodes**: different ids, and chains of owners that end. -/
structure Rooted (nodes : List Node) : Prop where
  distinct : DistinctIds nodes
  grounded : ∀ n ∈ nodes, Grounded nodes n.scope

/-! ## Moved nodes -/

/-- What a move makes of the nodes. -/
theorem mem_rescope {id : String} {sequence : Nat} :
    n ∈ Edit.rescope id scope sequence nodes ↔
      n ∈ nodes ∧ n.id ≠ id ∨ ∃ t ∈ nodes, t.id = id ∧ { t with scope, sequence } = n := by
  rw [Edit.rescope, List.mem_map]
  constructor
  · rintro ⟨m, hm, rfl⟩
    split
    · rename_i hid
      exact .inr ⟨m, hm, hid, rfl⟩
    · rename_i hid
      exact .inl ⟨hm, hid⟩
  · rintro (⟨hn, hid⟩ | ⟨t, ht, hid, rfl⟩)
    · exact ⟨n, hn, if_neg hid⟩
    · exact ⟨t, ht, if_pos hid⟩

/-- A move changes no id. -/
theorem map_id_rescope (id : String) (scope : Option Scope) (sequence : Nat) (nodes : List Node) :
    (Edit.rescope id scope sequence nodes).map Node.id = nodes.map Node.id := by
  rw [Edit.rescope, List.map_map]
  refine List.map_congr_left fun n _ => ?_
  rw [Function.comp_apply]
  split <;> rfl

/-- Ids that are different stay so. -/
theorem DistinctIds.rescope (hd : DistinctIds nodes) (id : String) (scope : Option Scope)
    (sequence : Nat) : DistinctIds (Edit.rescope id scope sequence nodes) := by
  rw [DistinctIds, map_id_rescope]
  exact hd

/-! ## Grounded scopes -/

/-- A scope that is grounded in some nodes is so in more of them. -/
theorem Grounded.mono {others : List Node} (h : Grounded nodes scope) (hsub : nodes ⊆ others) :
    Grounded others scope := by
  obtain ⟨chain, hchain⟩ := h
  exact ⟨chain, hchain.mono (List.Subset.trans hchain.subset hsub)⟩

/-- Where a change of nodes keeps scopes or gives grounded ones, what was
grounded stays so. -/
theorem Grounded.map {f : Node → Node} (h : Grounded nodes scope) (hid : ∀ n, (f n).id = n.id)
    (hscope : ∀ n ∈ nodes, (f n).scope = n.scope ∨ Grounded (nodes.map f) (f n).scope) :
    Grounded (nodes.map f) scope := by
  obtain ⟨chain, hchain⟩ := h
  induction hchain with
  | top => exact ⟨[], .top⟩
  | up hmem hidOwner _ ih =>
    have hmem' := List.mem_map_of_mem (f := f) hmem
    obtain ⟨rest, hrest⟩ : Grounded (nodes.map f) (f _).scope :=
      (hscope _ hmem).elim (fun hsame => hsame ▸ ih) id
    exact ⟨_, .up hmem' ((hid _).trans hidOwner) hrest⟩

/-- The chain of what a node holds is the node and its chain. -/
theorem Chain.cons_of_owner? (hn : n ∈ nodes) (h : Chain nodes n.scope chain)
    (hown : m.owner? = some n.id) : Chain nodes m.scope (n :: chain) := by
  obtain ⟨scope, hscope, hid⟩ := Option.map_eq_some_iff.mp hown
  rw [hscope]
  exact .up hn hid.symm h

/-- Where owners are kept with their nodes, all nodes around a kept node are
kept. -/
theorem keep_of_inside {keep : Node → Bool}
    (hkeep : ∀ owner n, Owns nodes owner n → n ∈ nodes → keep n = true → keep owner = true)
    (h : Inside nodes m n) (hn : n ∈ nodes) (hkept : keep n = true) : keep m = true := by
  induction h with
  | single hown => exact hkeep _ _ hown hn hkept
  | tail _ hown ih => exact ih hown.1 (hkeep _ _ hown hn hkept)

namespace Rooted

/-! ## Changed nodes -/

/-- No nodes are rooted. -/
theorem nil : Rooted [] :=
  ⟨List.nodup_nil, fun _ h => (by cases h)⟩

/-- A scope whose owner is there is grounded. -/
theorem grounded_of_owner (h : Rooted nodes)
    (howner : ∀ s, scope = some s → ∃ owner ∈ nodes, owner.id = s.owner) :
    Grounded nodes scope := by
  cases scope with
  | none => exact ⟨[], .top⟩
  | some s =>
    obtain ⟨owner, hmem, hid⟩ := howner s rfl
    obtain ⟨chain, hchain⟩ := h.grounded owner hmem
    exact ⟨owner :: chain, .up hmem hid hchain⟩

/-- **A new node with an owner that is there** keeps nodes rooted. -/
theorem append (h : Rooted nodes) (hnew : n.id ∉ nodes.map Node.id)
    (hscope : Grounded nodes n.scope) : Rooted (nodes ++ [n]) := by
  have hsub : nodes ⊆ nodes ++ [n] := List.subset_append_left _ _
  constructor
  · rw [DistinctIds, List.map_append, List.map_singleton, ← List.concat_eq_append]
    exact h.distinct.concat hnew
  · intro m hm
    rcases List.mem_append.mp hm with hm | hm
    · exact (h.grounded m hm).mono hsub
    · rw [List.mem_singleton.mp hm]
      exact hscope.mono hsub

/-- **Nodes that keep their owners** stay rooted. -/
theorem filter (h : Rooted nodes) {keep : Node → Bool}
    (hkeep : ∀ owner n, Owns nodes owner n → n ∈ nodes → keep n = true → keep owner = true) :
    Rooted (nodes.filter keep) := by
  refine ⟨List.Nodup.sublist (List.filter_sublist.map Node.id) h.distinct, fun n hn => ?_⟩
  -- all of the chain is kept with the node
  obtain ⟨hn, hkept⟩ := List.mem_filter.mp hn
  obtain ⟨chain, hchain⟩ := h.grounded n hn
  refine ⟨chain, hchain.mono fun a ha => ?_⟩
  have hin : Inside nodes a n := (inside_iff_mem_chain h.distinct hchain).mpr ha
  exact List.mem_filter.mpr ⟨hchain.subset ha, keep_of_inside hkeep hin hn hkept⟩

/-- A change of nodes that keeps ids, and scopes but for grounded ones, keeps
nodes rooted. -/
theorem map {f : Node → Node} (h : Rooted nodes) (hid : ∀ n, (f n).id = n.id)
    (hscope : ∀ n ∈ nodes, (f n).scope = n.scope ∨ Grounded (nodes.map f) (f n).scope) :
    Rooted (nodes.map f) := by
  have hids : (nodes.map f).map Node.id = nodes.map Node.id := by
    rw [List.map_map]
    exact List.map_congr_left fun n _ => hid n
  constructor
  · rw [DistinctIds, hids]
    exact h.distinct
  · intro n' hn'
    obtain ⟨n, hn, rfl⟩ := List.mem_map.mp hn'
    exact (hscope n hn).elim (fun hsame => hsame ▸ (h.grounded n hn).map hid hscope) id

/-- **A node brought to a place outside itself** keeps nodes rooted. -/
theorem rescope (h : Rooted nodes) {id : String} {sequence : Nat}
    (hchain : Chain nodes scope chain) (havoid : ∀ a ∈ chain, a.id ≠ id) :
    Rooted (Edit.rescope id scope sequence nodes) := by
  -- the new chain of the node goes past nodes that stay as they are
  have hscope : Grounded (Edit.rescope id scope sequence nodes) scope :=
    ⟨chain, hchain.mono fun a ha => mem_rescope.mpr (.inl ⟨hchain.subset ha, havoid a ha⟩)⟩
  refine h.map (fun n => ?_) fun n _ => ?_
  · split <;> rfl
  · by_cases hid : n.id = id
    · rw [if_pos hid]
      exact .inr hscope
    · rw [if_neg hid]
      exact .inl rfl

/-! ## From the inside out -/

/-- **Induction from the inside out.** What holds of a node as soon as it
holds of all nodes that the node owns holds of every node. Chains get longer
on the way in, and none is as long as the list. -/
theorem induction (h : Rooted nodes) {P : Node → Prop}
    (step : ∀ n ∈ nodes, (∀ m ∈ nodes, m.owner? = some n.id → P m) → P n) :
    ∀ n ∈ nodes, P n := by
  have hdepth : ∀ room n chain, n ∈ nodes → Chain nodes n.scope chain →
      nodes.length ≤ room + chain.length → P n := by
    -- `room` is what the list has left for chains that go further in
    intro room
    induction room with
    | zero =>
      intro n chain hn hchain hroom
      have hlt := hchain.length_lt h.distinct hn
      omega
    | succ room ih =>
      intro n chain hn hchain hroom
      refine step n hn fun m hm hown => ih m (n :: chain) hm (hchain.cons_of_owner? hn hown) ?_
      rw [List.length_cons]
      omega
  intro n hn
  obtain ⟨chain, hchain⟩ := h.grounded n hn
  exact hdepth nodes.length n chain hn hchain (Nat.le_add_right _ _)

end Rooted

/-! ## Recursion from the inside out -/

section Recursion

variable {β : Type} {F : (Node → β) → Node → β} {f g : Node → β}

/-- A step of a recursion that looks at the nodes that a node owns. -/
def LooksInside (nodes : List Node) (F : (Node → β) → Node → β) : Prop :=
  ∀ n ∈ nodes, ∀ f g, (∀ m ∈ nodes, m.owner? = some n.id → f m = g m) → F f n = F g n

namespace Rooted

/-- **A recursion from the inside out has one solution.** -/
theorem solution_unique (h : Rooted nodes) (hF : LooksInside nodes F)
    (hf : ∀ n ∈ nodes, f n = F f n) (hg : ∀ n ∈ nodes, g n = F g n) :
    ∀ n ∈ nodes, f n = g n := by
  refine h.induction fun n hn ih => ?_
  rw [hf n hn, hg n hn, hF n hn f g ih]

/-- Depths that leave room for all that may lie inside a node give the same
value. -/
theorem bounded_congr (h : Rooted nodes) (hF : LooksInside nodes F)
    {bounded : Nat → Node → β} (hsucc : ∀ depth n, bounded (depth + 1) n = F (bounded depth) n)
    {depth depth' : Nat} (hn : n ∈ nodes) (hchain : Chain nodes n.scope chain)
    (hdepth : nodes.length ≤ depth + chain.length)
    (hdepth' : nodes.length ≤ depth' + chain.length) : bounded depth n = bounded depth' n := by
  have hlt := hchain.length_lt h.distinct hn
  induction depth generalizing n depth' chain with
  | zero =>
    -- the chain would be as long as the list
    omega
  | succ depth ih =>
    obtain ⟨d, rfl⟩ : ∃ d, depth' = d + 1 := ⟨depth' - 1, by omega⟩
    rw [hsucc, hsucc]
    refine hF n hn _ _ fun m hm hown => ?_
    have hup := hchain.cons_of_owner? hn hown
    have hlen : (n :: chain).length = chain.length + 1 := rfl
    exact ih hm hup (by omega) (by omega) (hup.length_lt h.distinct hm)

/-- **The bound is never met.** A recursion that is bounded in depth by the
number of nodes is the recursion without a bound. -/
theorem solves_of_bounded (h : Rooted nodes) (hF : LooksInside nodes F)
    {bounded : Nat → Node → β} (hsucc : ∀ depth n, bounded (depth + 1) n = F (bounded depth) n) :
    ∀ n ∈ nodes, bounded nodes.length n = F (bounded nodes.length) n := by
  intro n hn
  obtain ⟨chain, hchain⟩ := h.grounded n hn
  have hpos : 0 < nodes.length := List.length_pos_of_mem hn
  obtain ⟨d, hd⟩ : ∃ d, nodes.length = d + 1 := ⟨nodes.length - 1, by omega⟩
  have hstep : bounded nodes.length n = F (bounded d) n := by rw [hd, hsucc]
  rw [hstep]
  refine hF n hn _ _ fun m hm hown => ?_
  have hlen : (n :: chain).length = chain.length + 1 := rfl
  exact h.bounded_congr hF hsucc hm (hchain.cons_of_owner? hn hown) (by omega) (by omega)

/-- A recursion from the inside out has a solution. -/
theorem exists_solution [Inhabited β] (h : Rooted nodes)
    (hF : LooksInside nodes F) : ∃ f, ∀ n ∈ nodes, f n = F f n := by
  let bounded : Nat → Node → β := fun depth => depth.rec (fun _ => default) fun _ f => F f
  have hsolves : ∀ n ∈ nodes, bounded nodes.length n = F (bounded nodes.length) n :=
    h.solves_of_bounded hF fun _ _ => rfl
  exact ⟨bounded nodes.length, hsolves⟩

end Rooted

end Recursion

end StepGraph
