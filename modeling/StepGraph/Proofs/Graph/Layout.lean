import StepGraph.Proofs.Graph.Siblings
import StepGraph.Proofs.Kind.Bound
import Mathlib.Data.List.Forall2

/-!
# Layout

Where a node is drawn and where in its list it stands are matters of layout.
Two lists that differ in nothing else have the same nodes (`SameNodes`), and
where ids are different their containment views give the same answers up to
the drawing (`agrees_of_sameNodes`): siblings are put in order before anybody
sees them. A kind that looks at the answers of the view, and at everything
of a node but its position, ignores the layout (`Kind.IgnoresLayout`); all
built-in kinds do.
-/

namespace StepGraph

variable {nodes nodes' : List Node} {m n n' : Node} {view view' : Containment}

/-! ## The same nodes -/

/-- A node that is drawn nowhere yet. -/
@[simps] def Node.undrawn (n : Node) : Node where
  id := n.id
  kind := n.kind
  scope := n.scope
  sequence := n.sequence
  position := .origin
  payload := n.payload

/-- **The same nodes**, in any order and drawn anywhere. -/
def SameNodes (nodes nodes' : List Node) : Prop :=
  (nodes.map Node.undrawn).Perm (nodes'.map Node.undrawn)

theorem SameNodes.of_perm (h : nodes.Perm nodes') : SameNodes nodes nodes' :=
  h.map _

@[simp] theorem map_id_undrawn (nodes : List Node) :
    (nodes.map Node.undrawn).map Node.id = nodes.map Node.id := by
  rw [List.map_map]
  rfl

/-- Siblings picked by what is not layout stand in one order, however they
are listed and drawn. -/
theorem undrawn_orderSiblings_filter (hd : DistinctIds nodes) (h : SameNodes nodes nodes')
    {keep : Node → Bool} (hkeep : ∀ n, keep n.undrawn = keep n) :
    (orderSiblings (nodes.filter keep)).map Node.undrawn =
      (orderSiblings (nodes'.filter keep)).map Node.undrawn := by
  have hundrawn : ∀ nodes : List Node, (orderSiblings (nodes.filter keep)).map Node.undrawn =
      orderSiblings ((nodes.map Node.undrawn).filter keep) := fun nodes => by
    rw [List.filter_map, show keep ∘ Node.undrawn = keep from funext hkeep,
      orderSiblings_map (f := Node.undrawn) fun _ _ _ _ => rfl]
  have hd' : DistinctIds (nodes.map Node.undrawn) := by rwa [DistinctIds, map_id_undrawn]
  rw [hundrawn, hundrawn, orderSiblings_eq_of_perm (hd'.filter keep) (h.filter keep)]

/-! ## Views -/

namespace Containment

/-- **Two views give the same answers**, up to where the nodes are drawn. -/
structure Agrees (view view' : Containment) : Prop where
  children : ∀ scope,
    (view.children scope).map Node.undrawn = (view'.children scope).map Node.undrawn
  ownedBy : ∀ owner,
    (view.ownedBy owner).map Node.undrawn = (view'.ownedBy owner).map Node.undrawn
  descendants : ∀ owner,
    (view.descendants owner).map Node.undrawn = (view'.descendants owner).map Node.undrawn

/-- Where owners hold the same nodes, so do they at any depth. -/
theorem descendantsTo_agrees
    (h : ∀ owner, (view.ownedBy owner).map Node.undrawn = (view'.ownedBy owner).map Node.undrawn)
    (depth : Nat) (owner : String) :
    (view.descendantsTo depth owner).map Node.undrawn =
      (view'.descendantsTo depth owner).map Node.undrawn := by
  induction depth generalizing owner with
  | zero => rfl
  | succ depth ih =>
    -- what a node holds depends on its id, which the undrawn node has as well
    have hflat : ∀ owned : List Node,
        (owned.reverse.flatMap fun n => (view'.descendantsTo depth n.id).map Node.undrawn) =
          (owned.map Node.undrawn).reverse.flatMap
            fun n => (view'.descendantsTo depth n.id).map Node.undrawn := fun owned => by
      rw [← List.map_reverse, List.flatMap_map]
      rfl
    simp only [descendantsTo, List.map_append, List.map_flatMap, ih]
    rw [hflat (view.ownedBy owner), hflat (view'.ownedBy owner), h]

/-- **The layout does not show in a view.** -/
theorem agrees_of_sameNodes (hd : DistinctIds nodes) (h : SameNodes nodes nodes') :
    (Containment.mk nodes).Agrees ⟨nodes'⟩ := by
  have howned : ∀ owner, ((Containment.mk nodes).ownedBy owner).map Node.undrawn =
      ((Containment.mk nodes').ownedBy owner).map Node.undrawn := fun owner =>
    undrawn_orderSiblings_filter hd h fun _ => rfl
  have hlength : nodes.length = nodes'.length := by simpa using h.length_eq
  refine ⟨fun scope => undrawn_orderSiblings_filter hd h fun _ => rfl, howned, fun owner => ?_⟩
  rw [descendants, descendants, hlength]
  exact descendantsTo_agrees howned _ owner

namespace Agrees

theorem refl (view : Containment) : view.Agrees view :=
  ⟨fun _ => rfl, fun _ => rfl, fun _ => rfl⟩

/-- The children of a scope are the same one by one. -/
theorem forall₂_children (h : view.Agrees view') (scope : Option Scope) :
    List.Forall₂ (fun n n' => n.undrawn = n'.undrawn) (view.children scope)
      (view'.children scope) := by
  have hchildren := h.children scope
  rwa [← List.forall₂_eq_eq_eq, List.forall₂_map_left_iff, List.forall₂_map_right_iff]
    at hchildren

/-- The occupied case slots are the same, in the same order. -/
theorem caseSlots (h : view.Agrees view') (owner : String) :
    view.caseSlots owner = view'.caseSlots owner := by
  -- the case slot of a node is asked of its scope alone
  have hundrawn : ∀ nodes : List Node, nodes.filterMap Node.caseSlot? =
      (nodes.map Node.undrawn).filterMap Node.caseSlot? := fun nodes => by
    rw [List.filterMap_map]
    rfl
  rw [caseSlots_eq_filterMap, caseSlots_eq_filterMap, hundrawn, h.ownedBy, ← hundrawn]

end Agrees

end Containment

/-! ## Kinds -/

/-- **A kind ignores the layout** when all it reads are the answers of the
view and what a node is apart from its position. A view keeps its list to
itself, and a position is a hint for drawing that compiling never reads. -/
structure Kind.IgnoresLayout (kind : Kind) : Prop where
  validate : ∀ n n' view view', n.undrawn = n'.undrawn → view.Agrees view' →
    kind.validate n view = kind.validate n' view'
  declaredSlots : ∀ n n' view view', n.undrawn = n'.undrawn → view.Agrees view' →
    kind.declaredSlots n view = kind.declaredSlots n' view'
  compile : ∀ n n' bodies, n.undrawn = n'.undrawn → kind.compile n bodies = kind.compile n' bodies

/-- **Built-in kinds ignore the layout.** -/
theorem Builtin.ignoresLayout (b : Builtin) : b.kind.IgnoresLayout where
  validate n n' view view' hn hview := by
    have hundrawn : ∀ (n : Node) view, b.kind.validate n view = b.kind.validate n.undrawn view :=
      fun n view => by cases b <;> rfl
    rw [hundrawn n, hundrawn n', hn]
    cases b with
    | switch =>
      change validateSwitch _ view = validateSwitch _ view'
      rw [validateSwitch, validateSwitch, hview.caseSlots]
    | action | conditional | caseNode | group => rfl
  declaredSlots n n' view view' hn hview := by
    have hid : n.undrawn.id = n'.undrawn.id := congrArg Node.id hn
    rw [declaredSlots_eq, declaredSlots_eq, ← n.undrawn_id, hid, n'.undrawn_id, hview.caseSlots]
  compile n n' bodies hn := by
    have hundrawn : ∀ n : Node, b.kind.compile n bodies = b.kind.compile n.undrawn bodies :=
      fun n => by cases b <;> rfl
    rw [hundrawn n, hundrawn n', hn]

/-- Every kind of a registry ignores the layout. -/
def Registry.IgnoresLayout (registry : Registry) : Prop :=
  ∀ tag kind, registry.get? tag = some kind → kind.IgnoresLayout

theorem Registry.OnlyBuiltins.ignoresLayout {registry : Registry} (h : registry.OnlyBuiltins) :
    registry.IgnoresLayout := by
  intro tag kind hget
  obtain ⟨b, rfl⟩ := h tag kind hget
  exact b.ignoresLayout

end StepGraph
