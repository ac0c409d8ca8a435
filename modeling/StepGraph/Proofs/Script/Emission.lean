import StepGraph.Proofs.Checks
import StepGraph.Proofs.Script.Walk

/-!
# What the generator emits

The generator is bounded in depth by the number of nodes. On nested nodes
the bound is never met, so what it emits solves the generator's own
recursion (`emits_nodeFragment`), and this recursion ends (`acc_calls`). In
a graph that validates no kind rejects a node (`compile_isOk_of_validate`),
so each visit tells what became of its node (`holds_of_mem_visits`), and
visits come in the order of a walk in depth (`isWalk_visits`).
-/

namespace StepGraph

variable {registry : Registry} {nodes : List Node} {n m : Node}

/-! ## Validation -/

/-- **What validates compiles**, whatever is in the slots: both read the
same configuration. -/
theorem Builtin.compile_isOk_of_validate {b : Builtin} {view : Containment}
    (h : b.kind.validate n view = .ok ()) (bodies : List SlotBody) :
    ∃ code, b.kind.compile n bodies = .ok code := by
  cases b with
  | action => exact ⟨_, rfl⟩
  | conditional =>
    have hvalid : validateConditional n = .ok () := h
    rw [validateConditional, Checks.check_bind_eq_ok_iff, Checks.bind_eq_ok_iff] at hvalid
    obtain ⟨-, config, hconfig, -⟩ := hvalid
    have hcompile : conditional.kind.compile n bodies = compileConditional n bodies := rfl
    rw [hcompile, compileConditional, hconfig]
    exact ⟨_, rfl⟩
  | switch =>
    have hvalid : validateSwitch n view = .ok () := h
    rw [validateSwitch, Checks.check_bind_eq_ok_iff, Checks.bind_eq_ok_iff] at hvalid
    obtain ⟨-, config, hconfig, -⟩ := hvalid
    have hcompile : switch.kind.compile n bodies = compileSwitch n bodies := rfl
    rw [hcompile, compileSwitch, hconfig]
    exact ⟨_, rfl⟩
  | caseNode => exact ⟨_, rfl⟩
  | group => exact ⟨_, rfl⟩

/-- **A graph is valid** when the kind of each node accepts it. -/
theorem Graph.validate_eq_ok_iff {g : Graph} :
    g.validate registry = .ok () ↔
      ∀ n ∈ g.nodes, ∀ kind, registry.get? n.kind = some kind →
        kind.validate n g.containment = .ok () := by
  have hfault {n : Node} : fault? registry g.containment n = none ↔
      ∀ kind, registry.get? n.kind = some kind → kind.validate n g.containment = .ok () := by
    rw [fault?]
    cases registry.get? n.kind with
    | none => simp
    | some kind => cases hvalid : kind.validate n g.containment <;> simp [hvalid]
  have hnil : g.faults registry = [] ↔ ∀ n ∈ g.nodes, fault? registry g.containment n = none :=
    List.filterMap_eq_nil_iff
  rw [validate]
  cases hfaults : g.faults registry with
  | nil => exact iff_of_true rfl fun n hn => hfault.mp (hnil.mp hfaults n hn)
  | cons error rest =>
    refine iff_of_false nofun fun hvalid => ?_
    rw [hnil.mpr fun n hn => hfault.mpr (hvalid n hn)] at hfaults
    cases hfaults

/-- A graph that is compiled is valid, and its script is generated. -/
theorem Graph.compile_eq_ok_iff {g : Graph} {comments : Bool} {script : Script} :
    g.compile registry comments = .ok script ↔
      g.validate registry = .ok () ∧ Script.generate registry g.containment comments = script := by
  rw [compile]
  cases g.validate registry with
  | error report => exact ⟨nofun, fun h => (by cases h.1)⟩
  | ok => exact ⟨fun h => ⟨rfl, Except.ok.inj h⟩, fun h => congrArg Except.ok h.2⟩

/-- A graph that is valid compiles. -/
theorem Graph.compile_of_validate {g : Graph} (h : g.validate registry = .ok ())
    (comments : Bool) :
    g.compile registry comments = .ok (Script.generate registry g.containment comments) :=
  compile_eq_ok_iff.mpr ⟨h, rfl⟩

/-- The node of a visit. -/
def Visit.node : Visit → Node
  | skipped node => node
  | rejected node _ _ => node
  | compiled node _ _ => node

/-- The node for which a kind was called; none where no kind was. -/
def Visit.called? : Visit → Option Node
  | skipped _ => none
  | rejected node _ _ => some node
  | compiled node _ _ => some node

namespace Generation

variable {setting : Setting} {emit : Node → Fragment}

/-! ## The recursion -/

/-- What the generator makes of a node, given what it makes of the nodes in
the slots. -/
def emitStep (setting : Setting) (emit : Node → Fragment) (n : Node) : Fragment :=
  match setting.registry.get? n.kind with
  | none => ⟨"", [.skipped n]⟩
  | some kind =>
    assemble setting n kind <|
      (kind.declaredSlots n setting.containment).map fun slot =>
        (slot, .join ((setting.containment.slotChildren n.id slot).map emit))

/-- **The generator's own recursion**, without a bound on its depth. -/
def Emits (setting : Setting) (emit : Node → Fragment) : Prop :=
  ∀ n ∈ setting.containment.nodes, emit n = emitStep setting emit n

/-- The generator is called for `m` while it is at `n`. -/
def Calls (setting : Setting) (m n : Node) : Prop :=
  m ∈ declaredChildren setting.registry setting.containment n

/-- A step looks at the nodes that a node owns. -/
theorem looksInside_emitStep : LooksInside setting.containment.nodes (emitStep setting) := by
  intro n _ f g h
  rw [emitStep, emitStep]
  cases setting.registry.get? n.kind with
  | none => rfl
  | some kind =>
    dsimp only
    congr 1
    refine List.map_congr_left fun slot _ => ?_
    have hchildren : (setting.containment.slotChildren n.id slot).map f =
        (setting.containment.slotChildren n.id slot).map g := by
      refine List.map_congr_left fun m hm => ?_
      obtain ⟨hm, hscope⟩ := Containment.mem_slotChildren.mp hm
      exact h m hm (owner?_of_scope hscope)
    rw [hchildren]

/-- **What the generator makes of nodes solves its recursion**, though it is
bounded in depth. -/
theorem emits_nodeFragment (h : Nested setting.registry setting.containment.nodes) :
    Emits setting (nodeFragment setting setting.containment.nodes.length) :=
  h.rooted.solves_of_bounded looksInside_emitStep fun _ _ => rfl

/-- **The recursion ends**, from whatever node it is called for. -/
theorem acc_calls (h : Nested setting.registry setting.containment.nodes)
    (hreg : setting.registry.OnlyBuiltins) :
    ∀ n ∈ setting.containment.nodes, Acc (Calls setting) n := by
  refine h.rooted.induction fun n hn ih => ⟨n, fun m hm => ?_⟩
  obtain ⟨hm, hown, -⟩ := (mem_declaredChildren_iff h hreg hn).mp hm
  exact ih m hm hown

/-! ## Visits -/

/-- The outputs of the nodes in a slot, one after the other. -/
def slotCode (setting : Setting) (emit : Node → Fragment) (n : Node) (slot : Slot) : String :=
  String.join ((setting.containment.slotChildren n.id slot).map fun m => (emit m).code)

/-- What a node's kind is handed over: the outputs in each declared slot. -/
def bodiesOf (setting : Setting) (emit : Node → Fragment) (kind : Kind) (n : Node) :
    List SlotBody :=
  (kind.declaredSlots n setting.containment).map fun slot => ⟨slot, slotCode setting emit n slot⟩

/-- **A visit tells what became of its node**: it was skipped for its kind,
or its kind has compiled it with the outputs of its slots. -/
def Holds (setting : Setting) (emit : Node → Fragment) : Visit → Prop
  | .skipped n => setting.registry.get? n.kind = none
  | .rejected _ _ _ => False
  | .compiled n bodies code => ∃ kind, setting.registry.get? n.kind = some kind ∧
      bodies = bodiesOf setting emit kind n ∧ kind.compile n bodies = .ok code

/-- Every node of a registered kind validates. -/
def Validated (setting : Setting) : Prop :=
  ∀ n ∈ setting.containment.nodes, ∀ kind, setting.registry.get? n.kind = some kind →
    kind.validate n setting.containment = .ok ()

/-- The bodies that a step hands over are those of the declared slots. -/
theorem map_slotBody (kind : Kind) (n : Node) :
    ((kind.declaredSlots n setting.containment).map fun slot =>
      (slot, Fragment.join ((setting.containment.slotChildren n.id slot).map emit))).map
        (fun slot => (⟨slot.1, slot.2.code⟩ : SlotBody)) = bodiesOf setting emit kind n := by
  rw [List.map_map, bodiesOf]
  refine List.map_congr_left fun slot _ => ?_
  simp only [Function.comp_apply, Fragment.join, List.map_map, slotCode]
  rfl

/-- **A step of a node that compiles**: its code, behind its comment, and the
visits of its slots before its own. -/
theorem emitStep_eq {kind : Kind} {code : String} (hget : setting.registry.get? n.kind = some kind)
    (hcode : kind.compile n (bodiesOf setting emit kind n) = .ok code) :
    emitStep setting emit n =
      ⟨(if setting.comments then commentLine n.payload.label else "") ++ code,
        (declaredChildren setting.registry setting.containment n).flatMap
          (fun m => (emit m).visits) ++ [.compiled n (bodiesOf setting emit kind n) code]⟩ := by
  rw [emitStep, declaredChildren, hget]
  simp only [assemble, map_slotBody, hcode]
  rw [List.flatMap_map, List.flatMap_assoc]
  congr 2
  refine List.flatMap_congr fun slot _ => ?_
  simp only [Fragment.join, List.flatMap_map]

/-- What is emitted for a compiled node is its code, behind its comment. -/
theorem code_of_compiled {bodies : List SlotBody} {code : String} (hemit : Emits setting emit)
    (hn : n ∈ setting.containment.nodes) (h : Holds setting emit (.compiled n bodies code)) :
    (emit n).code = (if setting.comments then commentLine n.payload.label else "") ++ code := by
  obtain ⟨kind, hget, rfl, hcode⟩ := h
  rw [hemit n hn, emitStep_eq hget hcode]

/-- Nothing is emitted for a skipped node. -/
theorem code_of_skipped (hemit : Emits setting emit) (hn : n ∈ setting.containment.nodes)
    (h : Holds setting emit (.skipped n)) : (emit n).code = "" := by
  have hget : setting.registry.get? n.kind = none := h
  rw [hemit n hn, emitStep, hget]

/-- The visits of a step are those of the slots and the one of the node. -/
theorem visits_emitStep (emit : Node → Fragment) (hreg : setting.registry.OnlyBuiltins)
    (hvalid : Validated setting) (hn : n ∈ setting.containment.nodes) :
    ∃ visit, visit.node = n ∧ Holds setting emit visit ∧
      (emitStep setting emit n).visits =
        (declaredChildren setting.registry setting.containment n).flatMap
          (fun m => (emit m).visits) ++ [visit] := by
  cases hget : setting.registry.get? n.kind with
  | none =>
    refine ⟨.skipped n, rfl, hget, ?_⟩
    rw [emitStep, declaredChildren, hget]
    rfl
  | some kind =>
    obtain ⟨b, rfl⟩ := hreg _ _ hget
    obtain ⟨code, hcode⟩ := Builtin.compile_isOk_of_validate (hvalid n hn _ hget)
      (bodiesOf setting emit b.kind n)
    refine ⟨.compiled n (bodiesOf setting emit b.kind n) code, rfl, ⟨b.kind, hget, rfl, hcode⟩, ?_⟩
    rw [emitStep_eq hget hcode]

section Visits

variable (hreg : setting.registry.OnlyBuiltins) (hvalid : Validated setting)
variable (hemit : Emits setting emit)

include hreg hvalid hemit

/-- **Visits come in the order of a walk in depth.** -/
theorem isWalk_visits :
    IsWalk setting.registry setting.containment.nodes fun n => (emit n).visits.map Visit.node := by
  intro n hn
  obtain ⟨own, hnode, -, hvisits⟩ := visits_emitStep emit hreg hvalid hn
  dsimp only
  rw [hemit n hn, hvisits, List.map_append, List.map_flatMap, List.map_singleton, hnode]

/-- Every visit tells what became of its node. -/
theorem holds_of_mem_visits (h : Nested setting.registry setting.containment.nodes) :
    ∀ n ∈ setting.containment.nodes, ∀ visit ∈ (emit n).visits, Holds setting emit visit := by
  refine h.rooted.induction fun n hn ih visit hvisit => ?_
  obtain ⟨own, -, hown, hvisits⟩ := visits_emitStep emit hreg hvalid hn
  rw [hemit n hn, hvisits, List.mem_append, List.mem_flatMap, List.mem_singleton] at hvisit
  rcases hvisit with ⟨m, hm, hvisit⟩ | rfl
  · obtain ⟨hm, howner, -⟩ := (mem_declaredChildren_iff h hreg hn).mp hm
    exact ih m hm howner visit hvisit
  · exact hown

end Visits

/-- What is read off each visit by its node is read off the nodes. -/
theorem filterMap_visits {β : Type} {f : Visit → Option β} {keep : Node → Bool} {g : Node → β}
    (hf : ∀ visit, Holds setting emit visit →
      f visit = if keep visit.node then some (g visit.node) else none)
    {visits : List Visit} (h : ∀ visit ∈ visits, Holds setting emit visit) :
    visits.filterMap f = ((visits.map Visit.node).filter keep).map g := by
  induction visits with
  | nil => rfl
  | cons visit rest ih =>
    obtain ⟨hvisit, hrest⟩ := List.forall_mem_cons.mp h
    rw [List.filterMap_cons, hf visit hvisit, ih hrest, List.map_cons, List.filter_cons]
    cases keep visit.node <;> rfl

/-- The kinds are called for the visited nodes whose kind is registered. -/
theorem filterMap_called? {visits : List Visit} (h : ∀ visit ∈ visits, Holds setting emit visit) :
    visits.filterMap Visit.called? =
      (visits.map Visit.node).filter fun n => (setting.registry.get? n.kind).isSome := by
  refine (filterMap_visits (g := id) (fun visit hvisit => ?_) h).trans (List.map_id _)
  cases visit with
  | skipped n =>
    have hget : setting.registry.get? n.kind = none := hvisit
    simp [Visit.called?, Visit.node, hget]
  | rejected => exact hvisit.elim
  | compiled n bodies code =>
    obtain ⟨kind, hget, -⟩ := hvisit
    simp [Visit.called?, Visit.node, hget]

/-- The diagnostics are those of the visited nodes whose kind is not
registered. -/
theorem filterMap_diagnostic? {visits : List Visit}
    (h : ∀ visit ∈ visits, Holds setting emit visit) :
    visits.filterMap Visit.diagnostic? =
      ((visits.map Visit.node).filter fun n => (setting.registry.get? n.kind).isNone).map
        fun n => .unknownKind n.id n.kind := by
  refine filterMap_visits (fun visit hvisit => ?_) h
  cases visit with
  | skipped n =>
    have hget : setting.registry.get? n.kind = none := hvisit
    simp [Visit.diagnostic?, Visit.node, hget]
  | rejected => exact hvisit.elim
  | compiled n bodies code =>
    obtain ⟨kind, hget, -⟩ := hvisit
    simp [Visit.diagnostic?, Visit.node, hget]

end Generation

end StepGraph
