import StepGraph.Proofs.Store.Run

/-!
# Changes

All that an operation can do to a store is one of a few changes, with all
that was checked before it (`Change`). Every operation makes one
(`perform_change`), so what each change keeps is kept over every run
(`performAll_induction`).
-/

namespace StepGraph

variable {store after : Store} {registry : Registry} {g : Graph} {error : StructureError}

/-! ## What planning checks -/

namespace Edit

variable {α : Type} {a : α}

theorem found_eq_ok_iff {value : Option α} : found error value = .ok a ↔ value = some a := by
  cases value <;> simp [found]

theorem lawful_eq_ok_iff {result : Except StructureError α} :
    lawful result = .ok a ↔ result = .ok a := by
  cases result <;> simp [lawful]

end Edit

namespace EdgePlan

variable {replacing : Option String} {edge : Edge} {orphan : Option Node} {target : String}
variable {plan : EdgePlan}

/-- A node falls back to the top level when the edge that is replaced had
another target, and when this target may be there. -/
theorem orphanOf_eq_ok_iff :
    orphanOf registry g replacing target = .ok orphan ↔
      orphan = none ∧ (∀ old, replacing.bind g.edge? = some old → old.target = target) ∨
      ∃ old node, replacing.bind g.edge? = some old ∧ old.target ≠ target ∧
        g.node? old.target = some node ∧
        Placement.check registry g.nodes (some node.id) node.kind node.payload none = .ok () ∧
        orphan = some node := by
  rw [orphanOf]
  cases replacing.bind g.edge? with
  | none => simp [eq_comm]
  | some old =>
    by_cases h : old.target = target
    · simp [h, eq_comm]
    · simp only [if_neg h, Checks.bind_eq_ok_iff, Edit.found_eq_ok_iff, Edit.lawful_eq_ok_iff,
        Checks.pure_eq_ok_iff]
      constructor
      · rintro ⟨node, hnode, ⟨⟩, hcheck, rfl⟩
        exact .inr ⟨old, node, rfl, h, hnode, hcheck, rfl⟩
      · rintro (⟨-, hsame⟩ | ⟨_, node, ⟨⟩, -, hnode, hcheck, rfl⟩)
        · exact absurd (hsame old rfl) h
        · exact ⟨node, hnode, (), hcheck, rfl⟩

/-- **What an edge is checked for.** Its ends are nodes, its handle is
routed, its target may be where it leads and does not come to lie inside
itself, and a node that falls back may do so. -/
theorem ofEdge_eq_ok_iff :
    ofEdge registry g replacing edge = .ok plan ↔
      ∃ source kind route, g.node? edge.source = some source ∧
        g.node? edge.target = some plan.target ∧ registry.get? source.kind = some kind ∧
        orphanOf registry g replacing edge.target = .ok plan.orphan ∧
        kind.route edge.handle = .ok route ∧
        plan.scope = Edit.scopeOf route source plan.orphan ∧
        Placement.checkAcyclic g plan.target.id plan.scope = .ok () ∧
        Placement.check registry g.nodes (some plan.target.id) plan.target.kind
          plan.target.payload plan.scope = .ok () := by
  simp only [ofEdge, Checks.bind_eq_ok_iff, Edit.found_eq_ok_iff, Edit.lawful_eq_ok_iff,
    Checks.pure_eq_ok_iff]
  constructor
  · rintro ⟨source, hsource, target, htarget, kind, hkind, orphan, horphan, route, hroute,
      ⟨⟩, hacyclic, ⟨⟩, hplace, rfl⟩
    exact ⟨source, kind, route, hsource, htarget, hkind, horphan, hroute, rfl, hacyclic, hplace⟩
  · obtain ⟨target, scope, orphan⟩ := plan
    rintro ⟨source, kind, route, hsource, htarget, hkind, horphan, hroute, hscope, hacyclic,
      hplace⟩
    obtain rfl : scope = Edit.scopeOf route source orphan := hscope
    exact ⟨source, hsource, target, htarget, kind, hkind, orphan, horphan, route, hroute,
      (), hacyclic, (), hplace, rfl⟩

end EdgePlan

/-! ## The changes -/

/-- **What an operation can do to a store**: the answer it gives and the
store it leaves. -/
inductive Change (store : Store) : Except EditError (Option String) → Store → Prop
  /-- A refusal may have drawn an id. -/
  | refused (error : EditError) (ids : IdSource) : Change store (.error error) { store with ids }
  /-- A node comes, and the variable of its output where it has one. -/
  | added {kind : String} {payload : Payload} {scope : Option Scope} (output : Option Output) :
      Placement.check store.registry store.graph.nodes none kind payload scope = .ok () →
      (∀ o, output = some o →
        ∃ vars, store.graph.vars.insert (Edit.outputVariable o "") = .ok vars) →
      Change store (.ok (some (store.newNode kind payload scope).id))
        ((store.withNode kind payload scope).withOutput output
          (store.newNode kind payload scope).id)
  /-- A node goes with all inside it. -/
  | removed {node : Node} {id : String} : store.graph.node? id = some node →
      Change store (.ok none) { store with graph := store.graph.without id }
  /-- A node is drawn elsewhere. -/
  | redrawn {node : Node} {id : String} (position : Position) : store.graph.node? id = some node →
      Change store (.ok none) { store with graph := store.graph.moved id position }
  /-- An edge comes, under a new id. -/
  | connected {edge : Edge} {plan : EdgePlan} (ids : IdSource) :
      edge.id = (store.ids.next "edge" store.graph.usedIds).1 →
      EdgePlan.ofEdge store.registry store.graph none edge = .ok plan →
      Change store (.ok (some edge.id)) (plan.store none edge { store with ids })
  /-- An edge is replaced under its id. -/
  | reconnected {old edge : Edge} {plan : EdgePlan} : store.graph.edge? edge.id = some old →
      EdgePlan.ofEdge store.registry store.graph (some edge.id) edge = .ok plan →
      Change store (.ok none) (plan.store (some edge.id) edge store)
  /-- An edge goes, and its target falls back to the top level. -/
  | disconnected {edge : Edge} {target : Node} {id : String} : store.graph.edge? id = some edge →
      store.graph.node? edge.target = some target →
      Placement.check store.registry store.graph.nodes (some target.id) target.kind target.payload
        none = .ok () →
      Change store (.ok none) { store with
        graph := store.graph.released edge.target id store.nextSequence.number
        nextSequence := store.nextSequence.next }
  /-- A variable comes. -/
  | variableRegistered {node : Node} {entry : Variable} {vars : VariableTable} :
      store.graph.vars.insert entry = .ok vars → store.graph.node? entry.producer = some node →
      Change store (.ok none) { store with graph := { store.graph with vars } }
  /-- An assistant comes. -/
  | assistantRegistered {entry : Assistant} {assistants : AssistantTable} :
      store.graph.assistants.insert entry = .ok assistants →
      Change store (.ok none) { store with graph := { store.graph with assistants } }

namespace Edit

/-- A step that has a payload has a free name for its output. -/
theorem exists_insert_of_stepPayload {step : Step} {payload : Payload}
    (h : stepPayload g step = .ok payload) {output : Output} (hout : step.output? = some output) :
    ∃ vars, g.vars.insert (outputVariable output "") = .ok vars := by
  rw [stepPayload, hout] at h
  cases hpayload : step.payload g.vars g.assistants with
  | error error =>
    rw [hpayload] at h
    cases h
  | ok ready =>
    rw [hpayload] at h
    dsimp only at h
    cases hinsert : g.vars.insert (outputVariable output "") with
    | ok vars => exact ⟨vars, rfl⟩
    | error error =>
      rw [hinsert] at h
      cases h

end Edit

/-- **Every operation makes one of the changes.** -/
theorem perform_change (store : Store) (operation : Operation) :
    Change store (store.perform operation).1 (store.perform operation).2 := by
  rw [Store.perform]
  -- each edit is in its form without steps; what it was not refused for goes into the change
  cases operation with
  | addNode kind payload scope =>
    rw [Operation.edit, Edit.run_map, Edit.run_addNode]
    split
    · rename_i hcheck
      exact .added none hcheck nofun
    · exact .refused _ _
  | addStep step scope =>
    rw [Operation.edit, Edit.run_map, Edit.run_addStep]
    split
    · exact .refused _ _
    · rename_i payload hpayload
      split
      · exact .refused _ _
      · rename_i hcheck
        exact .added step.output? hcheck fun _ => Edit.exists_insert_of_stepPayload hpayload
  | removeNode id =>
    rw [Operation.edit, Edit.run_map, Edit.run_removeNode]
    split
    · exact .refused _ _
    · rename_i hnode
      exact .removed hnode
  | moveNode id position =>
    rw [Operation.edit, Edit.run_map, Edit.run_moveNode]
    split
    · exact .refused _ _
    · rename_i hnode
      exact .redrawn position hnode
  | connect source target handle =>
    rw [Operation.edit, Edit.run_map, Edit.run_connect]
    dsimp only
    split
    · exact .refused _ _
    · rename_i hplan
      exact .connected _ rfl hplan
  | reconnect id source target handle =>
    rw [Operation.edit, Edit.run_map, Edit.run_reconnect]
    split
    · exact .refused _ _
    · rename_i hedge
      split
      · exact .refused _ _
      · rename_i hplan
        exact .reconnected hedge hplan
  | disconnect id =>
    rw [Operation.edit, Edit.run_map, Edit.run_disconnect]
    split
    · exact .refused _ _
    · rename_i hedge
      split
      · exact .refused _ _
      · rename_i hnode
        split
        · exact .refused _ _
        · rename_i hcheck
          exact .disconnected hedge hnode hcheck
  | registerVariable name displayName producer =>
    rw [Operation.edit, Edit.run_map, Edit.run_registerVariable]
    split
    · exact .refused _ _
    · rename_i hnode
      split
      · exact .refused _ _
      · rename_i hinsert
        exact .variableRegistered hinsert hnode
  | registerAssistant name model personality =>
    rw [Operation.edit, Edit.run_map, Edit.run_registerAssistant]
    split
    · exact .refused _ _
    · rename_i hinsert
      exact .assistantRegistered hinsert

/-! ## Edges that are put in place -/

section PutInPlace

variable {source target : String} {handle : Handle} {answer : Option String}

/-- **An edge is drawn** when it can be planned. -/
theorem perform_connect_eq_ok_iff :
    store.perform (.connect source target handle) = (.ok answer, after) ↔
      ∃ id ids plan, store.ids.next "edge" store.graph.usedIds = (id, ids) ∧
        EdgePlan.ofEdge store.registry store.graph none ⟨id, source, target, handle⟩ = .ok plan ∧
        answer = some id ∧
        after = plan.store none ⟨id, source, target, handle⟩ { store with ids } := by
  rw [Store.perform, Operation.edit, Edit.run_map, Edit.run_connect]
  cases hdrawn : store.ids.next "edge" store.graph.usedIds with
  | mk id ids =>
    dsimp only
    cases hplan : EdgePlan.ofEdge store.registry store.graph none ⟨id, source, target, handle⟩ with
    | error error => simp [Except.map, hplan]
    | ok plan => simp [Except.map, hplan, eq_comm]

/-- **An edge is moved** when it is there and can be planned. -/
theorem perform_reconnect_eq_ok_iff {id : String} :
    store.perform (.reconnect id source target handle) = (.ok answer, after) ↔
      ∃ old plan, store.graph.edge? id = some old ∧
        EdgePlan.ofEdge store.registry store.graph (some id) ⟨id, source, target, handle⟩ =
          .ok plan ∧
        answer = none ∧ after = plan.store (some id) ⟨id, source, target, handle⟩ store := by
  rw [Store.perform, Operation.edit, Edit.run_map, Edit.run_reconnect]
  cases store.graph.edge? id with
  | none => simp [Except.map]
  | some old =>
    dsimp only
    cases hplan :
      EdgePlan.ofEdge store.registry store.graph (some id) ⟨id, source, target, handle⟩ with
    | error error => simp [Except.map]
    | ok plan => simp [Except.map, eq_comm]

end PutInPlace

/-! ## Runs -/

/-- A run goes on from where it is. -/
theorem performAll_append (store : Store) (operations later : List Operation) :
    (store.performAll (operations ++ later)).2 =
      ((store.performAll operations).2.performAll later).2 := by
  induction operations generalizing store with
  | nil => rfl
  | cons first rest ih =>
    rw [List.cons_append, Store.performAll, Store.performAll]
    exact ih _

/-- The last operation of a run. -/
theorem performAll_concat (store : Store) (operations : List Operation) (operation : Operation) :
    (store.performAll (operations ++ [operation])).2 =
      ((store.performAll operations).2.perform operation).2 := by
  rw [performAll_append]
  rfl

/-- **What every operation keeps is kept over every run.** -/
theorem performAll_induction {P : Store → Prop}
    (hstep : ∀ store operation, P store → P (store.perform operation).2) (h : P store)
    (operations : List Operation) : P (store.performAll operations).2 := by
  induction operations generalizing store with
  | nil => exact h
  | cons operation rest ih =>
    rw [Store.performAll]
    exact ih (hstep store operation h)

end StepGraph
