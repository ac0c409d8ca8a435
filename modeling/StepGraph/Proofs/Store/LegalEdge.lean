import StepGraph.Proofs.Store.Reachable

/-!
# The edges that can be drawn

Which edges are legal is said without any order of checks. A table says where
an edge from a handle of a kind leads (`Leads`), and three rules say where a
node that is there already may be moved (`MayMove`): they are those for new
nodes among all other nodes, and the owner of the place does not lie inside
the node (`mayMove_iff`). In a reachable store these are the edges that can be
planned (`EdgePlan.exists_ofEdge_iff`), so drawing succeeds for them and for
no others.
-/

namespace StepGraph

variable {registry : Registry} {store : Store} {g : Graph} {nodes chain : List Node}
variable {s t owner : Node} {b : Builtin} {handle : Handle} {scope : Option Scope} {edge : Edge}

/-! ## Where an edge leads -/

/-- **The routing table.** An edge from a handle of a node of a kind leads to
a scope. -/
inductive Leads (source : Node) : Builtin → Handle → Option Scope → Prop
  | ifBranch : Leads source .conditional .primary (some ⟨source.id, .ifBranch⟩)
  | elseBranch : Leads source .conditional .secondary (some ⟨source.id, .elseBranch⟩)
  | switchDefault : Leads source .switch .defaultBranch (some ⟨source.id, .defaultBranch⟩)
  | switchCase (value : String) :
      Leads source .switch (.caseBranch value) (some ⟨source.id, .caseBranch value⟩)
  | pastSwitch : Leads source .switch .secondary none
  | caseBody : Leads source .caseNode .primary (some ⟨source.id, .body⟩)
  | pastCase : Leads source .caseNode .secondary none
  | groupBody : Leads source .group .primary (some ⟨source.id, .body⟩)
  | pastGroup : Leads source .group .secondary none
  | nextTo : Leads source .action .primary source.scope
  | pastAction : Leads source .action .secondary none

/-- **The built-in kinds route their edges by the table.** -/
theorem leads_iff :
    Leads s b handle scope ↔
      ∃ route, b.kind.route handle = .ok route ∧ scope = Edit.scopeOf route s none := by
  constructor
  · rintro (_ | _ | _ | _ | _ | _ | _ | _ | _ | _ | _)
    all_goals exact ⟨_, rfl, rfl⟩
  · rintro ⟨route, hroute, rfl⟩
    -- what is no line of the table is refused
    cases b <;> cases handle <;> cases hroute <;> constructor

/-- Edges lead to scopes that are grounded. -/
theorem Leads.grounded (h : Leads s b handle scope) (hrooted : Rooted nodes) (hs : s ∈ nodes) :
    Grounded nodes scope := by
  have hslot (slot : Slot) : Grounded nodes (some ⟨s.id, slot⟩) :=
    hrooted.grounded_of_owner fun _ hscope => ⟨s, hs, by cases hscope; rfl⟩
  cases h with
  | ifBranch | elseBranch | switchDefault | switchCase | caseBody | groupBody => exact hslot _
  | pastSwitch | pastCase | pastGroup | pastAction => exact ⟨[], .top⟩
  | nextTo => exact hrooted.grounded s hs

/-! ## Where a node may be moved -/

/-- **The places that a node of the list may be moved to**: all but cases to
the top level and to a fixed slot of an owner, and a case to the slot of its
value on a switch, where no other node is. The owner is neither the node nor
inside it. -/
inductive MayMove (registry : Registry) (nodes : List Node) (t : Node) : Option Scope → Prop
  | top : registry.builtin? t.kind ≠ some .caseNode → MayMove registry nodes t none
  | fixed {owner : Node} {b : Builtin} {slot : Slot} :
      owner ∈ nodes → owner ≠ t → ¬ Inside nodes t owner →
      registry.builtin? owner.kind = some b → slot ∈ b.fixedSlots →
      registry.builtin? t.kind ≠ some .caseNode →
      MayMove registry nodes t (some ⟨owner.id, slot⟩)
  | case {owner : Node} :
      owner ∈ nodes → owner ≠ t → ¬ Inside nodes t owner →
      registry.builtin? owner.kind = some .switch → registry.builtin? t.kind = some .caseNode →
      (∀ other ∈ nodes, other ≠ t →
        other.scope ≠ some ⟨owner.id, .caseBranch (Builtin.caseValue t.payload)⟩) →
      MayMove registry nodes t (some ⟨owner.id, .caseBranch (Builtin.caseValue t.payload)⟩)

/-- A chain that begins with an owner avoids a node when the owner is another
one and does not lie inside it. -/
theorem avoids_iff (hd : DistinctIds nodes) (ht : t ∈ nodes) (howner : owner ∈ nodes)
    (h : Chain nodes owner.scope chain) :
    (∀ a ∈ owner :: chain, a.id ≠ t.id) ↔ owner ≠ t ∧ ¬ Inside nodes t owner := by
  rw [List.forall_mem_cons, inside_iff_mem_chain hd h]
  refine and_congr ⟨fun hne heq => hne (congrArg Node.id heq), fun hne hid => hne ?_⟩
    ⟨fun havoid hmem => havoid t hmem rfl, fun hnot a ha hid => hnot ?_⟩
  · exact hd.eq howner ht hid
  · exact hd.eq (h.subset ha) ht hid ▸ ha

/-- The other nodes of a list with different ids are those that are not the
node. -/
theorem mem_withoutMoving_iff_ne (hd : DistinctIds nodes) (ht : t ∈ nodes) {n : Node} :
    n ∈ withoutMoving nodes (some t.id) ↔ n ∈ nodes ∧ n ≠ t := by
  rw [mem_withoutMoving]
  refine and_congr_right fun hn => not_congr ⟨fun hid => ?_, fun heq => heq ▸ rfl⟩
  exact hd.eq hn ht (Option.some.inj hid)

/-- **Moving is placing among the others, outside the node itself.** -/
theorem mayMove_iff (hd : DistinctIds nodes) (ht : t ∈ nodes) (h : Chain nodes scope chain) :
    MayMove registry nodes t scope ↔
      (∀ a ∈ chain, a.id ≠ t.id) ∧
        MayPlace registry (withoutMoving nodes (some t.id)) t.kind t.payload scope := by
  constructor
  · intro hmove
    cases hmove with
    | top hkind =>
      cases h
      exact ⟨fun _ ha => (by cases ha), .top hkind⟩
    | fixed hmem hne hout hb hslot hkind =>
      obtain ⟨rest, rfl, hrest⟩ := h.exists_of_owner hd hmem rfl
      exact ⟨(avoids_iff hd ht hmem hrest).mpr ⟨hne, hout⟩,
        .fixed ((mem_withoutMoving_iff_ne hd ht).mpr ⟨hmem, hne⟩) hb hslot hkind⟩
    | case hmem hne hout hb hkind hfree =>
      obtain ⟨rest, rfl, hrest⟩ := h.exists_of_owner hd hmem rfl
      refine ⟨(avoids_iff hd ht hmem hrest).mpr ⟨hne, hout⟩,
        .case ((mem_withoutMoving_iff_ne hd ht).mpr ⟨hmem, hne⟩) hb hkind fun other hother => ?_⟩
      obtain ⟨hother, hne'⟩ := (mem_withoutMoving_iff_ne hd ht).mp hother
      exact hfree other hother hne'
  · rintro ⟨havoid, hplace⟩
    cases hplace with
    | top hkind => exact .top hkind
    | fixed hmem hb hslot hkind =>
      obtain ⟨hmem, -⟩ := (mem_withoutMoving_iff_ne hd ht).mp hmem
      obtain ⟨rest, rfl, hrest⟩ := h.exists_of_owner hd hmem rfl
      obtain ⟨hne, hout⟩ := (avoids_iff hd ht hmem hrest).mp havoid
      exact .fixed hmem hne hout hb hslot hkind
    | case hmem hb hkind hfree =>
      obtain ⟨hmem, -⟩ := (mem_withoutMoving_iff_ne hd ht).mp hmem
      obtain ⟨rest, rfl, hrest⟩ := h.exists_of_owner hd hmem rfl
      obtain ⟨hne, hout⟩ := (avoids_iff hd ht hmem hrest).mp havoid
      exact .case hmem hne hout hb hkind fun other hother hne' =>
        hfree other ((mem_withoutMoving_iff_ne hd ht).mpr ⟨hother, hne'⟩)

/-! ## Drawing -/

/-- **The new edges that can be planned.** -/
theorem EdgePlan.exists_ofEdge_iff (hreg : registry.OnlyBuiltins) (h : Rooted g.nodes) :
    (∃ plan, ofEdge registry g none edge = .ok plan) ↔
      ∃ s ∈ g.nodes, ∃ t ∈ g.nodes, s.id = edge.source ∧ t.id = edge.target ∧
        ∃ b scope, registry.builtin? s.kind = some b ∧ Leads s b edge.handle scope ∧
          MayMove registry g.nodes t scope := by
  -- no edge is replaced, so no node falls back
  have hnone : orphanOf registry g none edge.target = .ok none := rfl
  constructor
  · rintro ⟨plan, hplan⟩
    obtain ⟨s, kind, route, hsource, htarget, hkind, horphan, hroute, hscope, hacyclic, hcheck⟩ :=
      ofEdge_eq_ok_iff.mp hplan
    obtain ⟨hs, hsid⟩ := Graph.mem_of_node? hsource
    obtain ⟨ht, htid⟩ := Graph.mem_of_node? htarget
    obtain ⟨b, rfl⟩ := hreg s.kind kind hkind
    obtain hfall : none = plan.orphan := Except.ok.inj (hnone.symm.trans horphan)
    have hleads : Leads s b edge.handle plan.scope :=
      leads_iff.mpr ⟨route, hroute, hfall ▸ hscope⟩
    obtain ⟨chain, hchain⟩ := hleads.grounded h hs
    refine ⟨s, hs, plan.target, ht, hsid, htid, b, plan.scope, Registry.builtin?_of_get? hkind,
      hleads, (mayMove_iff h.distinct ht hchain).mpr ⟨?_, ?_⟩⟩
    · exact (Placement.checkAcyclic_eq_ok_iff h.distinct hchain).mp hacyclic
    · exact (Placement.check_eq_ok_iff hreg h.distinct).mp hcheck
  · rintro ⟨s, hs, t, ht, hsid, htid, b, scope, hkind, hleads, hmove⟩
    obtain ⟨chain, hchain⟩ := hleads.grounded h hs
    obtain ⟨havoid, hplace⟩ := (mayMove_iff h.distinct ht hchain).mp hmove
    obtain ⟨route, hroute, hscope⟩ := leads_iff.mp hleads
    refine ⟨⟨t, scope, none⟩, ofEdge_eq_ok_iff.mpr ⟨s, b.kind, route, ?_, ?_, ?_, hnone, hroute,
      hscope, ?_, ?_⟩⟩
    · exact h.distinct.find?_eq_some_iff.mpr ⟨hs, hsid⟩
    · exact h.distinct.find?_eq_some_iff.mpr ⟨ht, htid⟩
    · exact hreg.builtin?_eq_some_iff.mp hkind
    · exact (Placement.checkAcyclic_eq_ok_iff h.distinct hchain).mpr havoid
    · exact (Placement.check_eq_ok_iff hreg h.distinct).mpr hplace

/-- **Drawing accepts the legal edges and no others.** In every reachable
store, over built-in kinds and aliases, an edge can be drawn when its ends are
nodes, the kind of its source routes its handle, and its target may be moved
to where the edge leads. -/
theorem connect_isOk_iff {aliases : List (String × String)}
    (h : Reachable (Registry.builtin.withAliases aliases) store) (source target : String)
    (handle : Handle) :
    (∃ answer, (store.perform (.connect source target handle)).1 = .ok answer) ↔
      ∃ s ∈ store.graph.nodes, ∃ t ∈ store.graph.nodes, s.id = source ∧ t.id = target ∧
        ∃ b scope, (Registry.builtin.withAliases aliases).builtin? s.kind = some b ∧
          Leads s b handle scope ∧
          MayMove (Registry.builtin.withAliases aliases) store.graph.nodes t scope := by
  obtain ⟨hstore, hregistry⟩ := h.consistent
  have hreg : store.registry.OnlyBuiltins :=
    hregistry ▸ Registry.onlyBuiltins_withAliases aliases
  rw [← hregistry]
  constructor
  · rintro ⟨answer, hok⟩
    obtain ⟨id, ids, plan, -, hplan, -⟩ := perform_connect_eq_ok_iff.mp (Prod.ext hok rfl)
    exact (EdgePlan.exists_ofEdge_iff hreg hstore.graph.rooted).mp ⟨plan, hplan⟩
  · intro hlegal
    -- the id of the new edge is the next one, whichever that is
    let edge : Edge := ⟨(store.ids.next "edge" store.graph.usedIds).1, source, target, handle⟩
    obtain ⟨plan, hplan⟩ : ∃ plan, EdgePlan.ofEdge store.registry store.graph none edge = .ok plan :=
      (EdgePlan.exists_ofEdge_iff hreg hstore.graph.rooted).mpr hlegal
    have hperform := perform_connect_eq_ok_iff.mpr ⟨_, _, plan, rfl, hplan, rfl, rfl⟩
    exact ⟨_, congrArg Prod.fst hperform⟩

/-- A switch under an alias, a case in its slot, and a conditional at the top
level. -/
def Document.withFork : Document where
  nodes := [⟨"s", "fork", none, 0, .origin, .empty⟩,
    ⟨"k", "case", some "s-case-x", 0, .origin, ⟨"", [], .object [("value", .string "x")]⟩⟩,
    ⟨"i", "conditional", none, 1, .origin, .empty⟩]
  edges := []
  vars := []
  assistants := []

/-- The store of the document. -/
def Store.withFork : Store :=
  (Document.withFork.loaded (Registry.builtin.withAliases [("fork", "switch")])
    ⟨fun _ => 0, 0⟩).store

/-- The edge from the switch to its case can be drawn: in the slot of the case
there is no other node. -/
theorem connect_isOk_iff_withFork :
    Reachable (Registry.builtin.withAliases [("fork", "switch")]) Store.withFork ∧
      ∃ answer, (Store.withFork.perform (.connect "s" "k" (.caseBranch "x"))).1 = .ok answer := by
  have hload : Document.withFork.load (Registry.builtin.withAliases [("fork", "switch")])
      ⟨fun _ => 0, 0⟩ = .ok (Document.withFork.loaded
        (Registry.builtin.withAliases [("fork", "switch")]) ⟨fun _ => 0, 0⟩) := rfl
  have hreachable : Reachable (Registry.builtin.withAliases [("fork", "switch")])
      Store.withFork := ⟨_, [], .loaded hload, rfl⟩
  let s : Node := ⟨"s", "fork", none, 0, .origin, .empty⟩
  let k : Node := ⟨"k", "case", some ⟨"s", .caseBranch "x"⟩, 0, .origin,
    ⟨"", [], .object [("value", .string "x")]⟩⟩
  let i : Node := ⟨"i", "conditional", none, 1, .origin, .empty⟩
  have hnodes : Store.withFork.graph.nodes = [s, k, i] := rfl
  -- the switch is at the top level, so it lies inside nothing
  have hout : ¬ Inside Store.withFork.graph.nodes k s := by
    rintro (⟨-, hown⟩ | ⟨-, -, hown⟩) <;> cases hown
  refine ⟨hreachable, (connect_isOk_iff hreachable "s" "k" (.caseBranch "x")).mpr
    ⟨s, by simp [hnodes], k, by simp [hnodes], rfl, rfl, .switch, some ⟨"s", .caseBranch "x"⟩,
      rfl, .switchCase "x", ?_⟩⟩
  refine .case (by simp [hnodes]) (by simp [s, k]) hout rfl rfl fun other hother hne => ?_
  obtain rfl | rfl | rfl : other = s ∨ other = k ∨ other = i := by simpa [hnodes] using hother
  · intro hscope
    cases hscope
  · exact absurd rfl hne
  · intro hscope
    cases hscope

end StepGraph
