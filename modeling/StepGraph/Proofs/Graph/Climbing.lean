import StepGraph.Proofs.Graph.Cycle
import StepGraph.Proofs.Graph.Rooted

/-!
# Climbing from owner to owner

Loading climbs from every node to its owner, the owner's owner and so on, and
remembers the ids that it has passed. Without any bound on its steps this walk
ends on every list of nodes, also where ids are there twice or owners are
missing, for an id that has an owner is that of a node (`walks_revisited?`). It
ends with an id that it has passed before when the chain of owners comes back
to one, and only then (`Walks.isSome_iff`). So the check fails for the lists in
which a chain comes back (`checkCycles_eq_error_iff`), and a move is refused by
the check of an edit when the list that it makes would not be loaded
(`circle_checks_agree`).
-/

namespace StepGraph

variable {nodes : List Node} {scope : Option Scope} {n t : Node}

/-! ## A way back -/

/-- **A chain that leads back.** Where the nodes that are passed before `t` are
still there, a node at the beginning of the chain lies inside `t`. -/
theorem inside_of_chain {nodes' between rest : List Node} {m t' : Node}
    (h : Chain nodes scope (between ++ t :: rest)) (hkept : ∀ a ∈ between, a ∈ nodes')
    (ht : t' ∈ nodes') (hid : t'.id = t.id) (hm : m.scope = scope) : Inside nodes' t' m := by
  induction between generalizing scope m with
  | nil =>
    cases h with
    | up _ howner _ => exact .single (owns_iff.mpr ⟨ht, _, hm, hid.trans howner⟩)
  | cons a between ih =>
    cases h with
    | up _ howner hrest =>
      obtain ⟨ha, hbetween⟩ := List.forall_mem_cons.mp hkept
      have hin : Inside nodes' t' a := ih hrest hbetween rfl
      exact hin.tail (owns_iff.mpr ⟨ha, _, hm, howner⟩)

/-- **A move onto the node's own chain makes a circle.** -/
theorem inside_self_of_rescope (hd : DistinctIds nodes) {between rest : List Node} {sequence : Nat}
    (h : Chain nodes scope (between ++ t :: rest)) :
    Inside (Edit.rescope t.id scope sequence nodes) { t with scope, sequence }
      { t with scope, sequence } := by
  have ht : t ∈ nodes := h.subset (by simp)
  refine inside_of_chain h (fun a ha => ?_) (mem_rescope.mpr (.inr ⟨t, ht, rfl, rfl⟩)) rfl rfl
  have hmem : a ∈ nodes := h.subset (List.mem_append_left _ ha)
  refine mem_rescope.mpr (.inl ⟨hmem, fun hid => ?_⟩)
  -- the chain passes no node twice
  obtain rfl := hd.eq hmem ht hid
  exact (List.nodup_append.mp (h.nodup hd)).2.2 a ha a List.mem_cons_self rfl

namespace Document

variable {owner? : String → Option String} {start id : String} {seen : List String}
variable {result : Option String}

/-! ## The walk -/

/-- The id that is reached from an id after some steps, where there is one. -/
def climb (owner? : String → Option String) (start : String) : Nat → Option String
  | 0 => some start
  | steps + 1 => (climb owner? start steps).bind owner?

/-- **A chain that comes back**: an id is reached that has been passed
before. -/
def ComesBack (owner? : String → Option String) (start : String) : Prop :=
  ∃ i j id, i < j ∧ climb owner? start i = some id ∧ climb owner? start j = some id

/-- **The walk of loading, without a bound.** It ends at an id that it has
seen, or where there is no owner. -/
inductive Walks (owner? : String → Option String) : List String → String → Option String → Prop
  | back {seen : List String} {id : String} : id ∈ seen → Walks owner? seen id (some id)
  | top {seen : List String} {id : String} : id ∉ seen → owner? id = none → Walks owner? seen id none
  | up {seen : List String} {id owner : String} {result : Option String} :
      id ∉ seen → owner? id = some owner → Walks owner? (id :: seen) owner result →
      Walks owner? seen id result

/-- **The walk ends.** Where the ids with an owner are those of a list, the
walk takes at most one step more than the list is long, so the bounded walk is
the walk. -/
theorem walks_of_listed {listed : List String}
    (hlisted : ∀ id owner, owner? id = some owner → id ∈ listed) {steps : Nat}
    (hseen : seen.Nodup) (hsub : seen ⊆ listed) (hsteps : listed.length < steps + seen.length) :
    Walks owner? seen id (revisited? owner? steps seen id) := by
  induction steps generalizing seen id with
  | zero =>
    -- more ids have been seen than have an owner
    have hle := hseen.length_le_of_subset hsub
    omega
  | succ steps ih =>
    unfold revisited?
    by_cases hback : id ∈ seen
    · rw [if_pos (List.contains_iff_mem.mpr hback)]
      exact .back hback
    · rw [if_neg (mt List.contains_iff_mem.mp hback)]
      cases howner : owner? id with
      | none => exact .top hback howner
      | some owner =>
        refine .up hback howner (ih (List.nodup_cons.mpr ⟨hback, hseen⟩)
          (List.cons_subset.mpr ⟨hlisted id owner howner, hsub⟩) ?_)
        rw [List.length_cons]
        omega

/-- An id that has an owner is that of a node. -/
theorem mem_of_ownerIn {owner : String} (h : ownerIn nodes id = some owner) :
    id ∈ nodes.map Node.id := by
  obtain ⟨n, hfind, -⟩ := Option.bind_eq_some_iff.mp h
  obtain ⟨hmem, hid⟩ := mem_of_find?_id hfind
  exact hid ▸ List.mem_map_of_mem (List.mem_reverse.mp hmem)

/-- **Loading's walk ends on every list of nodes**, within its steps. -/
theorem walks_revisited? (nodes : List Node) (id : String) :
    Walks (ownerIn nodes) [] id (revisited? (ownerIn nodes) (nodes.length + 2) [] id) := by
  refine walks_of_listed (fun _ _ => mem_of_ownerIn) List.nodup_nil (List.nil_subset _) ?_
  rw [List.length_map, List.length_nil]
  omega

/-! ## Where it ends -/

/-- A chain that has ended goes no further. -/
theorem climb_eq_none {i j : Nat} (h : climb owner? start i = none) (hij : i ≤ j) :
    climb owner? start j = none := by
  induction hij with
  | refl => exact h
  | step _ ih => rw [climb, ih, Option.bind_none]

/-- **The walk ends with an id when the chain comes back.** After `k` steps it
is at `id` and has seen what was passed before, each id once. -/
theorem Walks.isSome_iff (h : Walks owner? seen id result) {k : Nat}
    (hid : climb owner? start k = some id)
    (hseen : ∀ other, other ∈ seen ↔ ∃ i < k, climb owner? start i = some other)
    (honce : ∀ i j other, i < j → j < k → climb owner? start i = some other →
      climb owner? start j ≠ some other) :
    result.isSome ↔ ComesBack owner? start := by
  induction h generalizing k with
  | @back seen id hback =>
    obtain ⟨i, hi, hpassed⟩ := (hseen id).mp hback
    exact ⟨fun _ => ⟨i, k, id, hi, hpassed, hid⟩, fun _ => rfl⟩
  | @top seen id hnew howner =>
    refine ⟨nofun, fun ⟨i, j, other, hij, hi, hj⟩ => ?_⟩
    -- the chain ends behind `k`, so both places are up to there
    have hend : climb owner? start (k + 1) = none := by rw [climb, hid, Option.bind_some, howner]
    have hjk : j ≤ k := by
      by_contra hlt
      rw [climb_eq_none hend (by omega)] at hj
      cases hj
    rcases Nat.lt_or_eq_of_le hjk with hlt | rfl
    · exact absurd hj (honce i j other hij hlt hi)
    · rw [hid] at hj
      cases hj
      exact absurd ((hseen id).mpr ⟨i, hij, hi⟩) hnew
  | @up seen id owner result hnew howner _ ih =>
    refine ih (k := k + 1) (by rw [climb, hid, Option.bind_some, howner]) (fun other => ?_) ?_
    · rw [List.mem_cons, hseen]
      constructor
      · rintro (rfl | ⟨i, hi, hpassed⟩)
        · exact ⟨k, Nat.lt_succ_self k, hid⟩
        · exact ⟨i, Nat.lt_succ_of_lt hi, hpassed⟩
      · rintro ⟨i, hi, hpassed⟩
        rcases Nat.lt_succ_iff_lt_or_eq.mp hi with hlt | rfl
        · exact .inr ⟨i, hlt, hpassed⟩
        · exact .inl (Option.some.inj (hpassed.symm.trans hid))
    · intro i j other hij hj hi hpassed
      rcases Nat.lt_succ_iff_lt_or_eq.mp hj with hlt | rfl
      · exact honce i j other hij hlt hi hpassed
      · -- the id that is left now has not been seen
        rw [hid] at hpassed
        cases hpassed
        exact hnew ((hseen id).mpr ⟨i, hij, hi⟩)

/-- From its beginning, the walk ends with an id when the chain comes back. -/
theorem Walks.isSome_iff_comesBack (h : Walks owner? [] start result) :
    result.isSome ↔ ComesBack owner? start :=
  h.isSome_iff (k := 0) rfl (fun _ => by simp) fun _ _ _ _ hj => absurd hj (Nat.not_lt_zero _)

/-- **Loading's check fails when a chain of owners comes back**, for any list
of nodes. -/
theorem checkCycles_eq_error_iff :
    (∃ error, checkCycles nodes = .error error) ↔
      ∃ n ∈ nodes, ComesBack (ownerIn nodes) n.id := by
  have hwalk (n : Node) :
      revisited? (ownerIn nodes) (nodes.length + 2) [] n.id ≠ none ↔
        ComesBack (ownerIn nodes) n.id := by
    rw [← (walks_revisited? nodes n.id).isSome_iff_comesBack, Option.ne_none_iff_isSome]
  rw [Checks.exists_eq_error_iff, Ne, checkCycles_eq_ok_iff_revisited?]
  push Not
  exact exists_congr fun n => and_congr_right fun _ => hwalk n

/-! ## The two checks -/

/-- A move to an owner that is listed keeps the owners listed. -/
theorem OwnersKnown.rescope (h : OwnersKnown nodes) {id : String} {sequence : Nat}
    (hscope : ∀ place, scope = some place → ∃ owner ∈ nodes, owner.id = place.owner) :
    OwnersKnown (Edit.rescope id scope sequence nodes) := by
  have hids {owner : String} (hmem : ∃ m ∈ nodes, m.id = owner) :
      ∃ m ∈ Edit.rescope id scope sequence nodes, m.id = owner := by
    rw [← List.mem_map] at hmem ⊢
    rwa [map_id_rescope]
  intro m hm place hplace
  rcases mem_rescope.mp hm with ⟨hm, -⟩ | ⟨_, -, -, rfl⟩
  · exact hids (h m hm place hplace)
  · exact hids (hscope place hplace)

/-- **A move passes the check of an edit when what it makes passes that of
loading.** -/
theorem checkAcyclic_eq_ok_iff_checkCycles {g : Graph} (hd : DistinctIds g.nodes)
    (hknown : OwnersKnown g.nodes) (hok : checkCycles g.nodes = .ok ()) (hn : n ∈ g.nodes)
    (hscope : ∀ place, scope = some place → ∃ owner ∈ g.nodes, owner.id = place.owner)
    (sequence : Nat) :
    Placement.checkAcyclic g n.id scope = .ok () ↔
      checkCycles (Edit.rescope n.id scope sequence g.nodes) = .ok () := by
  have hrooted : Rooted g.nodes := ⟨hd, (checkCycles_eq_ok_iff_grounded hd hknown).mp hok⟩
  obtain ⟨chain, hchain⟩ := hrooted.grounded_of_owner hscope
  have hd' := hd.rescope n.id scope sequence
  rw [Placement.checkAcyclic_eq_ok_iff hd hchain,
    checkCycles_eq_ok_iff_grounded hd' (hknown.rescope hscope)]
  constructor
  · intro havoid
    exact (hrooted.rescope hchain havoid).grounded
  · intro hgrounded a ha hid
    obtain rfl := hd.eq (hchain.subset ha) hn hid
    obtain ⟨between, rest, rfl, -⟩ := hchain.exists_of_mem ha
    -- the moved node would lie inside itself
    have hmoved : { a with scope, sequence } ∈ Edit.rescope a.id scope sequence g.nodes :=
      mem_rescope.mpr (.inr ⟨a, hn, rfl, rfl⟩)
    exact not_inside_self hd' (hgrounded _ hmoved) (inside_self_of_rescope hd hchain)

/-- **The two checks against circles agree.** Among nodes that would be loaded,
the check of an edit refuses to move a node to a place when loading would
refuse the nodes with that node in that place. And on any list of nodes
loading's walk ends, and its check fails when the chain of owners of some node
comes back to where it was. -/
theorem circle_checks_agree :
    (∀ g : Graph, DistinctIds g.nodes → OwnersKnown g.nodes → checkCycles g.nodes = .ok () →
      ∀ n ∈ g.nodes, ∀ scope : Option Scope,
        (∀ place, scope = some place → ∃ owner ∈ g.nodes, owner.id = place.owner) →
        ∀ sequence,
          (∃ error, Placement.checkAcyclic g n.id scope = .error error) ↔
            ∃ error, checkCycles (Edit.rescope n.id scope sequence g.nodes) = .error error) ∧
    ∀ nodes : List Node,
      (∀ n ∈ nodes, Walks (ownerIn nodes) [] n.id
        (revisited? (ownerIn nodes) (nodes.length + 2) [] n.id)) ∧
      ((∃ error, checkCycles nodes = .error error) ↔
        ∃ n ∈ nodes, ComesBack (ownerIn nodes) n.id) := by
  constructor
  · intro g hd hknown hok n hn scope hscope sequence
    rw [Checks.exists_eq_error_iff, Checks.exists_eq_error_iff]
    exact not_congr (checkAcyclic_eq_ok_iff_checkCycles hd hknown hok hn hscope sequence)
  · intro nodes
    exact ⟨fun n _ => walks_revisited? nodes n.id, checkCycles_eq_error_iff⟩

/-- A group inside a group. -/
def nestedGroups : List Node :=
  [⟨"outer", "group", none, 0, .origin, .empty⟩,
    ⟨"inner", "group", some ⟨"outer", .body⟩, 1, .origin, .empty⟩]

/-- The outer group may not be moved into the inner one, for loading would
refuse what comes of it: from the outer group the chain of owners comes back
after two steps. -/
theorem circle_checks_agree_nestedGroups :
    (∃ error, Placement.checkAcyclic ⟨nestedGroups, [], .empty, .empty⟩ "outer"
      (some ⟨"inner", .body⟩) = .error error) ∧
    ∃ error, checkCycles (Edit.rescope "outer" (some ⟨"inner", .body⟩) 2 nestedGroups) =
      .error error := by
  let circle : List Node := Edit.rescope "outer" (some ⟨"inner", .body⟩) 2 nestedGroups
  have hd : DistinctIds nestedGroups := by
    show ["outer", "inner"].Nodup
    decide
  have hknown : OwnersKnown nestedGroups := by
    simp [OwnersKnown, nestedGroups]
  have hcircle : ∃ error, checkCycles circle = .error error :=
    (circle_checks_agree.2 circle).2.mpr
      ⟨_, List.mem_cons_self, 0, 2, "outer", Nat.zero_lt_two, rfl, rfl⟩
  refine ⟨(circle_checks_agree.1 ⟨nestedGroups, [], .empty, .empty⟩ hd hknown rfl _
    List.mem_cons_self (some ⟨"inner", .body⟩) ?_ 2).mpr hcircle, hcircle⟩
  intro place hplace
  cases hplace
  exact ⟨_, List.mem_cons_of_mem _ List.mem_cons_self, rfl⟩

end Document

end StepGraph
