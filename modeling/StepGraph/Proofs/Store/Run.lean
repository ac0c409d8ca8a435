import StepGraph.Proofs.Names.Table
import StepGraph.Store.Operation

/-!
# What the edits do

An edit is a computation that may be refused on the way. Here each one is
brought to a form without steps: what it is refused for, and the store that
it leaves otherwise. Edits that do the same kind of thing share the form: a
node is added (`Store.withNode`), a node is taken out with all inside it
(`Graph.without`), an edge is planned and then put in place (`EdgePlan`).
No edit but `connect` changes anything before it is refused, and `connect`
only the source of ids.
-/

namespace StepGraph

namespace Edit

variable {α β : Type}

/-! ## Running in steps -/

/-- A step that succeeds hands its result and its store to the next; one
that is refused ends the edit. -/
theorem run_bind (x : Edit α) (f : α → Edit β) (store : Store) :
    (x >>= f).run store =
      match x.run store with
      | (.ok a, after) => (f a).run after
      | (.error error, after) => (.error error, after) := by
  simp only [Edit.run, ExceptT.run_bind, StateT.run_bind]
  cases (StateT.run (ExceptT.run x) store : Id _) with
  | mk answer after => cases answer <;> rfl

@[simp] theorem run_map (f : α → β) (x : Edit α) (store : Store) :
    (f <$> x).run store = ((x.run store).1.map f, (x.run store).2) := by
  rw [map_eq_pure_bind, run_bind]
  rcases x.run store with ⟨answer, after⟩
  cases answer <;> rfl

@[simp] theorem run_get (store : Store) : (get : Edit Store).run store = (.ok store, store) := rfl

@[simp] theorem run_graph (store : Store) : graph.run store = (.ok store.graph, store) := rfl

@[simp] theorem run_drawId (stem : String) (store : Store) :
    (drawId stem).run store =
      (.ok (store.ids.next stem store.graph.usedIds).1,
        { store with ids := (store.ids.next stem store.graph.usedIds).2 }) := rfl

@[simp] theorem run_naming_ok (a : α) (store : Store) :
    (naming (.ok a)).run store = (.ok a, store) := rfl

@[simp] theorem run_configuration_ok (a : α) (store : Store) :
    (configuration (.ok a)).run store = (.ok a, store) := rfl

@[simp] theorem run_orRefuse_some (error : StructureError) (a : α) (store : Store) :
    (orRefuse error (some a)).run store = (.ok a, store) := rfl

@[simp] theorem run_checkPlacement (moving : Option String) (kind : String) (payload : Payload)
    (scope : Option Scope) (store : Store) :
    (checkPlacement moving kind payload scope).run store =
      (structural (Placement.check store.registry store.graph.nodes moving kind payload scope)).run
        store := rfl

end Edit

/-! ## Adding nodes -/

namespace Store

/-- The node that an edit adds, under the next id and sequence number. -/
def newNode (store : Store) (kind : String) (payload : Payload) (scope : Option Scope) : Node :=
  ⟨(store.ids.next "node" store.graph.usedIds).1, kind, scope, store.nextSequence.number, .origin,
    payload⟩

/-- The store with one more node. -/
def withNode (store : Store) (kind : String) (payload : Payload) (scope : Option Scope) :
    Store where
  graph := { store.graph with nodes := store.graph.nodes ++ [store.newNode kind payload scope] }
  registry := store.registry
  ids := (store.ids.next "node" store.graph.usedIds).2
  nextSequence := store.nextSequence.next

/-- The store with the variable of an output, where there is one. -/
def withOutput (store : Store) (output : Option Output) (producer : String) : Store :=
  match output with
  | none => store
  | some output => { store with graph := { store.graph with
      vars := store.graph.vars.appended (Edit.outputVariable output producer) } }

end Store

namespace Edit

/-- **A node is added** where its placement is legal. -/
theorem run_addNode (kind : String) (payload : Payload) (scope : Option Scope) (store : Store) :
    (addNode kind payload scope).run store =
      match Placement.check store.registry store.graph.nodes none kind payload scope with
      | .ok () => (.ok (store.newNode kind payload scope).id, store.withNode kind payload scope)
      | .error error => (.error (.structural error), store) := by
  rw [addNode, run_bind, run_checkPlacement]
  cases Placement.check store.registry store.graph.nodes none kind payload scope <;> rfl

/-- The payload of a step, where its names are known and the name of its
output is free. -/
def stepPayload (g : Graph) (step : Step) : Except EditError Payload :=
  match step.payload g.vars g.assistants with
  | .error error => .error (.configuration error)
  | .ok payload =>
    match step.output? with
    | none => .ok payload
    | some output =>
      match g.vars.insert (outputVariable output "") with
      | .error error => .error (.naming error)
      | .ok _ => .ok payload

/-- The variable of an output can be registered for any producer when it
can be registered for one. -/
theorem insert_outputVariable {vars result : VariableTable} {output : Output} {producer : String}
    (h : vars.insert (outputVariable output "") = .ok result) :
    vars.insert (outputVariable output producer) =
      .ok (vars.appended (outputVariable output producer)) :=
  NameTable.insert_isOk_congr (e := outputVariable output "") rfl rfl h

/-- **A step is added** where it has a payload and an action may be placed;
its output becomes a variable. -/
theorem run_addStep (step : Step) (scope : Option Scope) (store : Store) :
    (addStep step scope).run store =
      match stepPayload store.graph step with
      | .error error => (.error error, store)
      | .ok payload =>
        match Placement.check store.registry store.graph.nodes none Builtin.action.tag payload
          scope with
        | .error error => (.error (.structural error), store)
        | .ok () =>
          (.ok (store.newNode Builtin.action.tag payload scope).id,
            (store.withNode Builtin.action.tag payload scope).withOutput step.output?
              (store.newNode Builtin.action.tag payload scope).id) := by
  rw [addStep, run_bind, run_graph, stepPayload]
  dsimp only
  rw [run_bind]
  cases step.payload store.graph.vars store.graph.assistants with
  | error error => rfl
  | ok payload =>
    rw [run_configuration_ok]
    dsimp only
    cases step.output? with
    | none =>
      dsimp only
      rw [run_addNode]
      cases Placement.check store.registry store.graph.nodes none Builtin.action.tag payload
        scope <;> rfl
    | some output =>
      dsimp only
      rw [run_bind]
      cases hinsert : store.graph.vars.insert (outputVariable output "") with
      | error error => rfl
      | ok vars =>
        rw [run_naming_ok]
        dsimp only
        -- the name was asked for before the node is there, and is still free behind it
        rw [run_bind, run_addNode]
        cases Placement.check store.registry store.graph.nodes none Builtin.action.tag payload
          scope with
        | error error => rfl
        | ok u =>
          dsimp only
          rw [run_bind, insertVariable, run_bind, run_graph]
          dsimp only [Store.withNode]
          rw [run_bind, insert_outputVariable hinsert]
          rfl

end Edit

/-! ## Removing and moving nodes -/

namespace Graph

/-- The ids of a node and of all nodes inside it. -/
def treeIds (g : Graph) (id : String) : List String :=
  id :: ((Containment.mk g.nodes).descendants id).map Node.id

/-- The graph without a node, all nodes inside it, the edges that touch one
of them and the variables that they produce. -/
def without (g : Graph) (id : String) : Graph where
  nodes := g.nodes.filter fun node => !(g.treeIds id).contains node.id
  edges := g.edges.filter fun edge => !(g.treeIds id).any edge.touches
  vars := g.vars.filter fun v => !(g.treeIds id).contains v.producer
  assistants := g.assistants

/-- The graph with a node drawn elsewhere. -/
def moved (g : Graph) (id : String) (position : Position) : Graph :=
  { g with nodes := g.nodes.map fun node => if node.id = id then { node with position } else node }

/-- The graph without an edge, its target being back at the top level. -/
def released (g : Graph) (target edge : String) (sequence : Nat) : Graph :=
  { g with
    nodes := Edit.rescope target none sequence g.nodes
    edges := g.edges.filter fun e => e.id != edge }

end Graph

namespace Edit

/-- **A node is removed** where it is there. -/
theorem run_removeNode (id : String) (store : Store) :
    (removeNode id).run store =
      match store.graph.node? id with
      | none => (.error (.structural (.nodeNotFound id)), store)
      | some _ => (.ok (), { store with graph := store.graph.without id }) := by
  rw [removeNode, run_bind, run_graph]
  dsimp only
  rw [run_bind]
  cases store.graph.node? id <;> rfl

/-- A node is drawn elsewhere where it is there. -/
theorem run_moveNode (id : String) (position : Position) (store : Store) :
    (moveNode id position).run store =
      match store.graph.node? id with
      | none => (.error (.structural (.nodeNotFound id)), store)
      | some _ => (.ok (), { store with graph := store.graph.moved id position }) := by
  rw [moveNode, run_bind, run_graph]
  dsimp only
  rw [run_bind]
  cases store.graph.node? id <;> rfl

/-! ## Edges -/

/-- What is looked up has to be there. -/
def found (error : StructureError) : Option α → Except EditError α
  | some value => .ok value
  | none => .error (.structural error)

/-- A fault of the structure refuses the edit. -/
def lawful : Except StructureError α → Except EditError α
  | .ok value => .ok value
  | .error error => .error (.structural error)

end Edit

/-- What an edge does to the nodes: its target comes to a scope, and the
target that it leaves falls back to the top level. -/
structure EdgePlan where
  target : Node
  scope : Option Scope
  orphan : Option Node

namespace EdgePlan

/-- The node that falls back to the top level, which has to be legal. -/
def orphanOf (registry : Registry) (g : Graph) (replacing : Option String) (target : String) :
    Except EditError (Option Node) :=
  match replacing.bind g.edge? with
  | none => .ok none
  | some old =>
    if old.target = target then .ok none
    else do
      let node ← Edit.found (.nodeNotFound old.target) (g.node? old.target)
      Edit.lawful (Placement.check registry g.nodes (some node.id) node.kind node.payload none)
      return some node

/-- **The plan of an edge**, where the edge is legal. -/
def ofEdge (registry : Registry) (g : Graph) (replacing : Option String) (edge : Edge) :
    Except EditError EdgePlan := do
  let source ← Edit.found (.nodeNotFound edge.source) (g.node? edge.source)
  let target ← Edit.found (.nodeNotFound edge.target) (g.node? edge.target)
  let kind ← Edit.found (.invalidHandle source.kind edge.handle.text) (registry.get? source.kind)
  let orphan ← orphanOf registry g replacing edge.target
  let route ← Edit.lawful (kind.route edge.handle)
  let scope := Edit.scopeOf route source orphan
  Edit.lawful (Placement.checkAcyclic g target.id scope)
  Edit.lawful (Placement.check registry g.nodes (some target.id) target.kind target.payload scope)
  return ⟨target, scope, orphan⟩

/-- The nodes after the plan, which takes its numbers from a counter. -/
def nodes (plan : EdgePlan) (counter : Counter) (nodes : List Node) : List Node :=
  match plan.orphan with
  | none => Edit.rescope plan.target.id plan.scope counter.number nodes
  | some orphan =>
    Edit.rescope orphan.id none counter.next.number
      (Edit.rescope plan.target.id plan.scope counter.number nodes)

/-- The counter after the plan: one number for each node that moves. -/
def counter (plan : EdgePlan) (counter : Counter) : Counter :=
  match plan.orphan with
  | none => counter.next
  | some _ => counter.next.next

/-- The graph with the edge in place: every other edge into the target goes
away, and so does the one that is replaced. -/
def graph (plan : EdgePlan) (replacing : Option String) (edge : Edge) (counter : Counter)
    (g : Graph) : Graph :=
  { g with
    nodes := plan.nodes counter g.nodes
    edges := (g.edges.filter fun e => some e.id != replacing && e.target != plan.target.id)
      ++ [edge] }

/-- The store with the edge in place. -/
def store (plan : EdgePlan) (replacing : Option String) (edge : Edge) (store : Store) : Store :=
  { store with
    graph := plan.graph replacing edge store.nextSequence store.graph
    nextSequence := plan.counter store.nextSequence }

end EdgePlan

namespace Edit

variable {α β : Type}

theorem run_orRefuse (error : StructureError) (value : Option α) (store : Store) :
    (orRefuse error value).run store = (found error value, store) := by
  cases value <;> rfl

theorem run_structural (result : Except StructureError α) (store : Store) :
    (structural result).run store = (lawful result, store) := by
  cases result <;> rfl

theorem run_orphanOf (replacing : Option String) (target : String) (store : Store) :
    (orphanOf replacing target).run store =
      (EdgePlan.orphanOf store.registry store.graph replacing target, store) := by
  rw [orphanOf, run_bind, run_graph, EdgePlan.orphanOf]
  dsimp only [Checks.ok_bind]
  cases replacing.bind store.graph.edge? with
  | none => rfl
  | some old =>
    dsimp only [Checks.ok_bind]
    split
    · rfl
    · rw [run_bind, run_orRefuse]
      cases found (.nodeNotFound old.target) (store.graph.node? old.target) with
      | error error => rfl
      | ok node =>
        dsimp only [Checks.ok_bind]
        rw [run_bind, run_checkPlacement, run_structural]
        cases Placement.check store.registry store.graph.nodes (some node.id) node.kind node.payload
          none <;> rfl

/-- **An edge is put in place** as it is planned. -/
theorem run_applyEdge (replacing : Option String) (edge : Edge) (store : Store) :
    (applyEdge replacing edge).run store =
      match EdgePlan.ofEdge store.registry store.graph replacing edge with
      | .error error => (.error error, store)
      | .ok plan => (.ok (), plan.store replacing edge store) := by
  rw [applyEdge, EdgePlan.ofEdge, run_bind, run_get]
  -- the edit and its plan ask the same questions in the same order
  dsimp only [Checks.ok_bind]
  rw [run_bind, run_orRefuse]
  cases found (.nodeNotFound edge.source) (store.graph.node? edge.source) with
  | error error => rfl
  | ok source =>
  dsimp only [Checks.ok_bind]
  rw [run_bind, run_orRefuse]
  cases found (.nodeNotFound edge.target) (store.graph.node? edge.target) with
  | error error => rfl
  | ok target =>
  dsimp only [Checks.ok_bind]
  rw [run_bind, run_orRefuse]
  cases found (.invalidHandle source.kind edge.handle.text) (store.registry.get? source.kind) with
  | error error => rfl
  | ok kind =>
  dsimp only [Checks.ok_bind]
  rw [run_bind, run_orphanOf]
  cases EdgePlan.orphanOf store.registry store.graph replacing edge.target with
  | error error => rfl
  | ok orphan =>
  dsimp only [Checks.ok_bind]
  rw [run_bind, run_structural]
  cases lawful (kind.route edge.handle) with
  | error error => rfl
  | ok route =>
  dsimp only [Checks.ok_bind]
  rw [run_bind, run_structural]
  cases lawful (Placement.checkAcyclic store.graph target.id (scopeOf route source orphan)) with
  | error error => rfl
  | ok u =>
  dsimp only [Checks.ok_bind]
  rw [run_bind, run_checkPlacement, run_structural]
  cases lawful (Placement.check store.registry store.graph.nodes (some target.id) target.kind
    target.payload (scopeOf route source orphan)) with
  | error error => rfl
  | ok u =>
    -- nothing has changed up to here; now all of the plan is put in place
    cases orphan <;> rfl

/-- **An edge is drawn** under a new id, which is drawn in any case. -/
theorem run_connect (source target : String) (handle : Handle) (store : Store) :
    (connect source target handle).run store =
      let drawn := store.ids.next "edge" store.graph.usedIds
      let edge : Edge := ⟨drawn.1, source, target, handle⟩
      match EdgePlan.ofEdge store.registry store.graph none edge with
      | .error error => (.error error, { store with ids := drawn.2 })
      | .ok plan => (.ok drawn.1, plan.store none edge { store with ids := drawn.2 }) := by
  rw [connect, run_bind, run_drawId]
  dsimp only
  rw [run_bind, run_applyEdge]
  dsimp only
  cases EdgePlan.ofEdge store.registry store.graph none
    ⟨(store.ids.next "edge" store.graph.usedIds).1, source, target, handle⟩ <;> rfl

/-- **An edge is moved** where it is there. -/
theorem run_reconnect (id source target : String) (handle : Handle) (store : Store) :
    (reconnect id source target handle).run store =
      match store.graph.edge? id with
      | none => (.error (.structural (.edgeNotFound id)), store)
      | some _ =>
        match EdgePlan.ofEdge store.registry store.graph (some id) ⟨id, source, target, handle⟩ with
        | .error error => (.error error, store)
        | .ok plan => (.ok (), plan.store (some id) ⟨id, source, target, handle⟩ store) := by
  rw [reconnect, run_bind, run_graph]
  dsimp only
  rw [run_bind]
  cases store.graph.edge? id with
  | none => rfl
  | some edge =>
    rw [run_orRefuse_some]
    dsimp only
    rw [run_applyEdge]

/-- **An edge is deleted** where it is there with its target, and the target
may be at the top level. -/
theorem run_disconnect (id : String) (store : Store) :
    (disconnect id).run store =
      match store.graph.edge? id with
      | none => (.error (.structural (.edgeNotFound id)), store)
      | some edge =>
        match store.graph.node? edge.target with
        | none => (.error (.structural (.nodeNotFound edge.target)), store)
        | some target =>
          match Placement.check store.registry store.graph.nodes (some target.id) target.kind
            target.payload none with
          | .error error => (.error (.structural error), store)
          | .ok () => (.ok (), { store with
              graph := store.graph.released edge.target id store.nextSequence.number
              nextSequence := store.nextSequence.next }) := by
  rw [disconnect, run_bind, run_graph]
  dsimp only
  rw [run_bind]
  cases store.graph.edge? id with
  | none => rfl
  | some edge =>
    rw [run_orRefuse_some]
    dsimp only
    rw [run_bind]
    cases store.graph.node? edge.target with
    | none => rfl
    | some target =>
      rw [run_orRefuse_some]
      dsimp only
      rw [run_bind, run_checkPlacement]
      cases Placement.check store.registry store.graph.nodes (some target.id) target.kind
        target.payload none <;> rfl

/-! ## Names -/

/-- **A variable is registered** where its producer is there and its name is
allowed and free. -/
theorem run_registerVariable (name displayName producer : String) (store : Store) :
    (registerVariable name displayName producer).run store =
      match store.graph.node? producer with
      | none => (.error (.structural (.nodeNotFound producer)), store)
      | some _ =>
        match store.graph.vars.insert ⟨name, displayName, producer⟩ with
        | .error error => (.error (.naming error), store)
        | .ok vars => (.ok (), { store with graph := { store.graph with vars } }) := by
  rw [registerVariable, run_bind, run_graph]
  dsimp only
  rw [run_bind]
  cases store.graph.node? producer with
  | none => rfl
  | some node =>
    rw [run_orRefuse_some]
    dsimp only
    rw [insertVariable, run_bind, run_graph]
    dsimp only
    rw [run_bind]
    cases store.graph.vars.insert ⟨name, displayName, producer⟩ <;> rfl

/-- **An assistant is registered** where its name is allowed and free. -/
theorem run_registerAssistant (name model personality : String) (store : Store) :
    (registerAssistant name model personality).run store =
      match store.graph.assistants.insert ⟨name, model, personality⟩ with
      | .error error => (.error (.naming error), store)
      | .ok assistants => (.ok (), { store with graph := { store.graph with assistants } }) := by
  rw [registerAssistant, run_bind, run_graph]
  dsimp only
  rw [run_bind]
  cases store.graph.assistants.insert ⟨name, model, personality⟩ <;> rfl

end Edit

end StepGraph
