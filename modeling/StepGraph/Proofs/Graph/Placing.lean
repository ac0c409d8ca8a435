import StepGraph.Proofs.Checks
import StepGraph.Proofs.Graph.Siblings
import StepGraph.Proofs.Kind.Bound
import StepGraph.Store.Placement

/-!
# Legal places

Where a node may be is said in three rules: at the top level and in a fixed
slot of its owner every node that is no case, and in the slot of its value
on a switch a case, when no other node is there (`MayPlace`). The check of a
placement accepts these places and no others (`check_eq_ok_iff`). The rules
ask for the owner and for the slot of a case to be free, so they go over to
every list of nodes that keeps the owner and fills no slot (`MayPlace.mono`).
-/

namespace StepGraph

variable {registry : Registry} {others nodes : List Node} {kind : String} {payload : Payload}
variable {scope : Option Scope} {owner : Node} {slot : Slot}

/-- **The places that a node of a kind and payload may have** among other
nodes. -/
inductive MayPlace (registry : Registry) (others : List Node) (kind : String)
    (payload : Payload) : Option Scope → Prop
  /-- The top level, for all but cases. -/
  | top : registry.builtin? kind ≠ some .caseNode → MayPlace registry others kind payload none
  /-- A fixed slot of the owner's kind, for all but cases. -/
  | fixed {owner : Node} {b : Builtin} {slot : Slot} :
      owner ∈ others → registry.builtin? owner.kind = some b → slot ∈ b.fixedSlots →
      registry.builtin? kind ≠ some .caseNode →
      MayPlace registry others kind payload (some ⟨owner.id, slot⟩)
  /-- The slot of a case's own value on a switch, where nothing else is in it. -/
  | case {owner : Node} :
      owner ∈ others → registry.builtin? owner.kind = some .switch →
      registry.builtin? kind = some .caseNode →
      (∀ other ∈ others,
        other.scope ≠ some ⟨owner.id, .caseBranch (Builtin.caseValue payload)⟩) →
      MayPlace registry others kind payload
        (some ⟨owner.id, .caseBranch (Builtin.caseValue payload)⟩)

namespace MayPlace

/-- **The places inside an owner**: the fixed slots of its kind, and on a
switch the free slot of a case's value. -/
theorem of_owner {id : String} (h : MayPlace registry others kind payload (some ⟨id, slot⟩)) :
    ∃ owner ∈ others, owner.id = id ∧ ∃ b, registry.builtin? owner.kind = some b ∧
      (slot ∈ b.fixedSlots ∧ registry.builtin? kind ≠ some .caseNode ∨
        b = .switch ∧ registry.builtin? kind = some .caseNode ∧
          slot = .caseBranch (Builtin.caseValue payload) ∧
          ∀ other ∈ others, other.scope ≠ some ⟨id, slot⟩) := by
  cases h with
  | fixed hmem hb hslot hkind => exact ⟨_, hmem, rfl, _, hb, .inl ⟨hslot, hkind⟩⟩
  | case hmem hb hkind hfree => exact ⟨_, hmem, rfl, _, hb, .inr ⟨rfl, hkind, rfl, hfree⟩⟩

/-- A place has an owner among the others, of a registered kind. -/
theorem exists_owner {scope : Scope} (h : MayPlace registry others kind payload (some scope)) :
    ∃ owner ∈ others, owner.id = scope.owner ∧ ∃ b, registry.builtin? owner.kind = some b := by
  obtain ⟨owner, hmem, hid, b, hb, -⟩ := h.of_owner
  exact ⟨owner, hmem, hid, b, hb⟩

/-- Where ids are different the places inside an owner are places inside this
owner. -/
theorem owned_iff (hd : DistinctIds others) (hmem : owner ∈ others) {b : Builtin}
    (hb : registry.builtin? owner.kind = some b) :
    MayPlace registry others kind payload (some ⟨owner.id, slot⟩) ↔
      slot ∈ b.fixedSlots ∧ registry.builtin? kind ≠ some .caseNode ∨
        b = .switch ∧ registry.builtin? kind = some .caseNode ∧
          slot = .caseBranch (Builtin.caseValue payload) ∧
          ∀ other ∈ others, other.scope ≠ some ⟨owner.id, slot⟩ := by
  constructor
  · intro h
    obtain ⟨owner', hmem', hid, b', hb', hplace⟩ := h.of_owner
    obtain rfl := hd.eq hmem' hmem hid
    obtain rfl : b' = b := Option.some.inj (hb'.symm.trans hb)
    exact hplace
  · rintro (⟨hslot, hkind⟩ | ⟨rfl, hkind, rfl, hfree⟩)
    · exact .fixed hmem hb hslot hkind
    · exact .case hmem hb hkind hfree

/-- **A legal place stays legal** where its owner stays, with its kind, and
no node has come into a case's slot. -/
theorem mono {others' : List Node} (h : MayPlace registry others kind payload scope)
    (howner : ∀ owner ∈ others, scope.map Scope.owner = some owner.id →
      ∃ owner' ∈ others', owner'.id = owner.id ∧ owner'.kind = owner.kind)
    (hfree : registry.builtin? kind = some .caseNode →
      ∀ other' ∈ others', other'.scope = scope → ∃ other ∈ others, other.scope = scope) :
    MayPlace registry others' kind payload scope := by
  cases h with
  | top hkind => exact .top hkind
  | fixed hmem hb hslot hkind =>
    obtain ⟨owner', hmem', hid, hsame⟩ := howner _ hmem rfl
    rw [← hid]
    exact .fixed hmem' (hsame ▸ hb) hslot hkind
  | case hmem hb hkind hnone =>
    obtain ⟨owner', hmem', hid, hsame⟩ := howner _ hmem rfl
    rw [← hid] at hnone hfree ⊢
    refine .case hmem' (hsame ▸ hb) hkind fun other' hother' hscope => ?_
    obtain ⟨other, hother, hscope'⟩ := hfree hkind other' hother' hscope
    exact hnone other hother hscope'

end MayPlace

/-! ## The list without the node that moves -/

theorem mem_withoutMoving {moving : Option String} {n : Node} :
    n ∈ withoutMoving nodes moving ↔ n ∈ nodes ∧ some n.id ≠ moving := by
  rw [withoutMoving, List.mem_filter, bne_iff_ne]

@[simp] theorem withoutMoving_none : withoutMoving nodes none = nodes :=
  List.filter_eq_self.mpr fun _ _ => rfl

namespace Placement

/-! ## The check -/

/-- What a kind opens is the slot of a case's value. -/
theorem opened_eq (hreg : registry.OnlyBuiltins) (kind : String) (payload : Payload) :
    ((registry.get? kind).bind fun k => k.openedSlot payload) =
      if registry.builtin? kind = some .caseNode
        then some (.caseBranch (Builtin.caseValue payload)) else none := by
  rw [hreg.get?_eq]
  cases registry.builtin? kind with
  | none => rfl
  | some b =>
    rw [Option.map_some, Option.bind_some, Builtin.openedSlot_eq]
    simp only [Option.some.injEq]

theorem checkOpening_eq_ok_iff {scope : Scope} {ownerKind : Kind} {declared : List Slot} :
    checkOpening slot scope owner ownerKind declared = .ok () ↔
      scope.slot = slot ∧ ownerKind.acceptsOpenedSlot slot = true ∧ slot ∉ declared := by
  simp only [checkOpening, Checks.ite_error_eq_ok_iff, Bool.not_eq_true', List.contains_iff_mem]
  simp

theorem checkPlain_eq_ok_iff {scope : Scope} {declared : List Slot} :
    checkPlain scope owner declared = .ok () ↔
      scope.slot.isCase = false ∧ scope.slot ∈ declared := by
  simp only [checkPlain, Checks.ite_error_eq_ok_iff, Bool.not_eq_true', List.contains_eq_mem]
  simp

/-- A slot that is no case is declared when it is fixed. -/
theorem mem_declaredSlots_of_not_isCase {b : Builtin} {view : Containment}
    (h : slot.isCase = false) : slot ∈ b.kind.declaredSlots owner view ↔ slot ∈ b.fixedSlots := by
  rw [Builtin.declaredSlots_eq, List.mem_append]
  refine ⟨fun hmem => hmem.resolve_left fun hcase => ?_, .inr⟩
  split at hcase
  · obtain ⟨value, rfl, -⟩ := Containment.mem_caseSlots.mp hcase
    cases h
  · cases hcase

/-- A case's slot is declared by a switch when a node is in it. -/
theorem mem_declaredSlots_switch {view : Containment} {value : String} :
    .caseBranch value ∈ Builtin.switch.kind.declaredSlots owner view ↔
      ∃ n ∈ view.nodes, n.scope = some ⟨owner.id, .caseBranch value⟩ := by
  simp [Builtin.declaredSlots_eq, Builtin.fixedSlots, Containment.mem_caseSlots]

/-- In a scope with a known owner the check accepts the legal places. -/
theorem checkOwned_eq_ok_iff (hreg : registry.OnlyBuiltins) (hmem : owner ∈ others)
    (hd : DistinctIds others) :
    checkOwned registry others
        (if registry.builtin? kind = some .caseNode
          then some (.caseBranch (Builtin.caseValue payload)) else none)
        ⟨owner.id, slot⟩ owner = .ok () ↔
      MayPlace registry others kind payload (some ⟨owner.id, slot⟩) := by
  rw [checkOwned, hreg.get?_eq]
  cases hb : registry.builtin? owner.kind with
  | none =>
    refine ⟨nofun, fun h => ?_⟩
    obtain ⟨owner', hmem', hid, b, hb'⟩ := h.exists_owner
    rw [hd.eq hmem' hmem hid, hb] at hb'
    cases hb'
  | some b =>
    rw [MayPlace.owned_iff hd hmem hb]
    by_cases hkind : registry.builtin? kind = some .caseNode
    · simp only [Option.map_some, if_pos hkind, checkOpening_eq_ok_iff,
        Builtin.acceptsOpenedSlot_eq, Slot.isCase, Bool.and_true, decide_eq_true_eq]
      constructor
      · rintro ⟨rfl, rfl, hfree⟩
        rw [mem_declaredSlots_switch] at hfree
        exact .inr ⟨rfl, hkind, rfl, fun other hother hscope => hfree ⟨other, hother, hscope⟩⟩
      · rintro (⟨-, hnot⟩ | ⟨rfl, -, rfl, hnone⟩)
        · exact absurd hkind hnot
        · refine ⟨rfl, rfl, fun hdecl => ?_⟩
          obtain ⟨other, hother, hscope⟩ := mem_declaredSlots_switch.mp hdecl
          exact hnone other hother hscope
    · simp only [Option.map_some, if_neg hkind, checkPlain_eq_ok_iff]
      constructor
      · rintro ⟨hplain, hdecl⟩
        exact .inl ⟨(mem_declaredSlots_of_not_isCase hplain).mp hdecl, hkind⟩
      · rintro (⟨hslot, -⟩ | ⟨-, hcase, -⟩)
        · have hplain := Builtin.isCase_of_mem_fixedSlots hslot
          exact ⟨hplain, (mem_declaredSlots_of_not_isCase hplain).mpr hslot⟩
        · exact absurd hcase hkind

/-- **The check of a placement accepts the legal places**, and no others. -/
theorem check_eq_ok_iff (hreg : registry.OnlyBuiltins) {moving : Option String}
    (hd : DistinctIds nodes) :
    check registry nodes moving kind payload scope = .ok () ↔
      MayPlace registry (withoutMoving nodes moving) kind payload scope := by
  have hd' : DistinctIds (withoutMoving nodes moving) := hd.filter _
  cases scope with
  | none =>
    simp only [check, opened_eq hreg]
    by_cases hkind : registry.builtin? kind = some .caseNode
    · simp only [if_pos hkind]
      refine ⟨nofun, fun h => ?_⟩
      cases h with
      | top hnot => exact absurd hkind hnot
    · simp only [if_neg hkind]
      exact ⟨fun _ => .top hkind, fun _ => trivial⟩
  | some scope =>
    simp only [check, opened_eq hreg]
    cases hfind : (withoutMoving nodes moving).find? (·.id == scope.owner) with
    | none =>
      refine ⟨nofun, fun h => ?_⟩
      obtain ⟨owner, hmem, hid, -⟩ := h.exists_owner
      exact absurd hid (find?_id_eq_none_iff.mp hfind owner hmem)
    | some owner =>
      obtain ⟨hmem, hid⟩ := mem_of_find?_id hfind
      obtain ⟨id, slot⟩ := scope
      obtain rfl : owner.id = id := hid
      exact checkOwned_eq_ok_iff hreg hmem hd'

end Placement

end StepGraph
