import StepGraph.Proofs.Step.Stored
import StepGraph.Proofs.Store.Drawing

/-!
# Where nodes come from and where names go

An operation changes at most the place of the nodes that it leaves; what it
adds, it adds with a kind and a payload of its own (`content_of_mem_perform`),
so what is so of all that is added is so of all nodes of a run
(`content_of_mem_performAll`).
A name that a template or an operand may refer to stays known, unless a node
is removed together with the producer of the variable
(`isResolvable_perform`).
-/

namespace StepGraph

variable {g : Graph} {store : Store} {n m l : Node} {operation : Operation}

/-! ## Nodes -/

/-- **Nodes that differ at most in their place**: they have one id, one kind
and one payload. -/
def Node.SameContent (m n : Node) : Prop :=
  m.id = n.id ∧ m.kind = n.kind ∧ m.payload = n.payload

theorem Node.SameContent.trans (h : m.SameContent n) (h' : n.SameContent l) : m.SameContent l :=
  ⟨h.1.trans h'.1, h.2.1.trans h'.2.1, h.2.2.trans h'.2.2⟩

/-- **The kind and the payload that an operation adds a node with.** -/
inductive Operation.Brings (g : Graph) : String → Payload → Operation → Prop
  | addNode {kind : String} {payload : Payload} (scope : Option Scope) :
      Brings g kind payload (.addNode kind payload scope)
  | addStep {step : Step} {payload : Payload} (scope : Option Scope) :
      Edit.stepPayload g step = .ok payload →
      Brings g Builtin.action.tag payload (.addStep step scope)

/-- A node is added as it is asked for, or for a step. -/
theorem Operation.Brings.cases {kind : String} {payload : Payload}
    (h : operation.Brings g kind payload) :
    (∃ scope, operation = .addNode kind payload scope) ∨
      ∃ step scope, operation = .addStep step scope ∧ kind = Builtin.action.tag ∧
        Edit.stepPayload g step = .ok payload := by
  cases h with
  | addNode scope => exact .inl ⟨scope, rfl⟩
  | addStep scope hpayload => exact .inr ⟨_, scope, rfl, rfl, hpayload⟩

theorem content_of_mem_withNode {kind : String} {payload : Payload} {scope : Option Scope}
    (h : n ∈ (store.withNode kind payload scope).graph.nodes) :
    (∃ m ∈ store.graph.nodes, m.SameContent n) ∨ n.kind = kind ∧ n.payload = payload := by
  rcases List.mem_append.mp h with h | h
  · exact .inl ⟨n, h, rfl, rfl, rfl⟩
  · rw [List.mem_singleton.mp h]
    exact .inr ⟨rfl, rfl⟩

/-- **A node has the kind and the payload that it was added with.** -/
theorem content_of_mem_perform (h : n ∈ (store.perform operation).2.graph.nodes) :
    (∃ m ∈ store.graph.nodes, m.SameContent n) ∨
      operation.Brings store.graph n.kind n.payload := by
  have hkept (h : n ∈ store.graph.nodes) : (∃ m ∈ store.graph.nodes, m.SameContent n) ∨
      operation.Brings store.graph n.kind n.payload := .inl ⟨n, h, rfl, rfl, rfl⟩
  have hplanned {plan : EdgePlan} {counter : Counter} (h : n ∈ plan.nodes counter store.graph.nodes) :
      (∃ m ∈ store.graph.nodes, m.SameContent n) ∨
        operation.Brings store.graph n.kind n.payload :=
    .inl (EdgePlan.exists_of_mem_nodes h)
  rw [Store.perform] at h
  cases operation with
  | addNode kind payload scope =>
    rw [Operation.edit, Edit.run_map, Edit.run_addNode] at h
    split at h
    · rcases content_of_mem_withNode h with h | ⟨rfl, rfl⟩
      · exact .inl h
      · exact .inr (.addNode scope)
    · exact hkept h
  | addStep step scope =>
    rw [Operation.edit, Edit.run_map, Edit.run_addStep] at h
    split at h
    · exact hkept h
    · rename_i payload hpayload
      split at h
      · exact hkept h
      · have hnodes : n ∈ (store.withNode Builtin.action.tag payload scope).graph.nodes := by
          revert h
          cases step.output? <;> exact id
        rcases content_of_mem_withNode hnodes with h | ⟨hkind, rfl⟩
        · exact .inl h
        · rw [hkind]
          exact .inr (.addStep scope hpayload)
  | removeNode id =>
    rw [Operation.edit, Edit.run_map, Edit.run_removeNode] at h
    split at h
    · exact hkept h
    · exact hkept (List.mem_filter.mp h).1
  | moveNode id position =>
    rw [Operation.edit, Edit.run_map, Edit.run_moveNode] at h
    split at h
    · exact hkept h
    · obtain ⟨m, hm, rfl⟩ := List.mem_map.mp h
      refine .inl ⟨m, hm, ?_⟩
      split <;> exact ⟨rfl, rfl, rfl⟩
  | connect source target handle =>
    rw [Operation.edit, Edit.run_map, Edit.run_connect] at h
    dsimp only at h
    split at h
    · exact hkept h
    · exact hplanned h
  | reconnect id source target handle =>
    rw [Operation.edit, Edit.run_map, Edit.run_reconnect] at h
    split at h
    · exact hkept h
    · split at h
      · exact hkept h
      · exact hplanned h
  | disconnect id =>
    rw [Operation.edit, Edit.run_map, Edit.run_disconnect] at h
    split at h
    · exact hkept h
    · split at h
      · exact hkept h
      · split at h
        · exact hkept h
        · rcases mem_rescope.mp h with ⟨hkeep, -⟩ | ⟨m, hm, -, rfl⟩
          · exact hkept hkeep
          · exact .inl ⟨m, hm, rfl, rfl, rfl⟩
  | registerVariable name displayName producer =>
    rw [Operation.edit, Edit.run_map, Edit.run_registerVariable] at h
    split at h
    · exact hkept h
    · split at h <;> exact hkept h
  | registerAssistant name model personality =>
    rw [Operation.edit, Edit.run_map, Edit.run_registerAssistant] at h
    split at h <;> exact hkept h

/-- **What all that is added has, all nodes of a run have.** -/
theorem content_of_mem_performAll {P : String → Payload → Prop} {operations : List Operation}
    (h : ∀ n ∈ store.graph.nodes, P n.kind n.payload)
    (hbrings : ∀ operation ∈ operations, ∀ g kind payload,
      operation.Brings g kind payload → P kind payload) :
    ∀ n ∈ (store.performAll operations).2.graph.nodes, P n.kind n.payload := by
  induction operations generalizing store with
  | nil => exact h
  | cons operation rest ih =>
    obtain ⟨hfirst, hrest⟩ := List.forall_mem_cons.mp hbrings
    rw [Store.performAll]
    refine ih (fun n hn => ?_) hrest
    rcases content_of_mem_perform hn with ⟨m, hm, -, hkind, hpayload⟩ | hbrought
    · rw [← hkind, ← hpayload]
      exact h m hm
    · exact hfirst _ _ _ hbrought

/-- A step that is added has a payload. -/
theorem Edit.payload_of_stepPayload {step : Step} {payload : Payload}
    (h : stepPayload g step = .ok payload) : step.payload g.vars g.assistants = .ok payload := by
  rw [stepPayload] at h
  split at h
  · cases h
  · rename_i hready
    split at h
    · cases h
      exact hready
    · split at h
      · cases h
      · cases h
        exact hready

/-- A step is the configuration of its node. -/
theorem Edit.config_of_stepPayload {step : Step} {payload : Payload}
    (h : stepPayload g step = .ok payload) : payload.config = step.toJson :=
  Step.config_of_payload (payload_of_stepPayload h)

/-! ## Names -/

namespace NameTable

variable {α : Type} [Named α] {table : NameTable α} {name : String}

/-- An insertion keeps the names that are there. -/
theorem WellFormed.contains_insert (h : table.WellFormed) {entry : α} {result : NameTable α}
    (hinsert : table.insert entry = .ok result) (hname : table.contains name = true) :
    result.contains name = true := by
  have hresult := h.insert hinsert
  obtain ⟨-, -, rfl⟩ := insert_eq_ok_iff.mp hinsert
  rw [h.contains_iff] at hname
  rw [hresult.contains_iff, appended, List.map_append]
  exact List.mem_append_left _ hname

/-- A name is gone after filtering only where its entry was left out. -/
theorem WellFormed.contains_filter (h : table.WellFormed) (keep : α → Bool)
    (hname : table.contains name = true) :
    (table.filter keep).contains name = true ∨
      ∃ entry ∈ table.entries, Named.name entry = name ∧ keep entry = false := by
  obtain ⟨entry, hentry, rfl⟩ := List.mem_map.mp (h.contains_iff.mp hname)
  cases hkeep : keep entry with
  | true =>
    left
    rw [(h.filter keep).contains_iff]
    exact List.mem_map_of_mem (List.mem_filter.mpr ⟨hentry, hkeep⟩)
  | false => exact .inr ⟨entry, hentry, rfl, hkeep⟩

end NameTable

/-- **A removal that takes a name away**: a node goes, and with it, as one of
the nodes that go, the producer of the variable of that name. -/
def Store.Takes (store : Store) (id name : String) : Prop :=
  (store.graph.node? id).isSome ∧
    ∃ v ∈ store.graph.vars.entries, v.name = name ∧ v.producer ∈ store.graph.treeIds id

/-- **A name stays known**, unless a removal takes it away. -/
theorem isResolvable_perform (hwf : store.graph.vars.WellFormed) {name : String}
    (h : store.graph.vars.isResolvable name = true) (operation : Operation) :
    (store.perform operation).2.graph.vars.isResolvable name = true ∨
      ∃ id, operation = .removeNode id ∧ store.Takes id name := by
  have hinserted {entry : Variable} {vars : VariableTable}
      (hinsert : store.graph.vars.insert entry = .ok vars) : vars.isResolvable name = true := by
    rw [VariableTable.isResolvable, Bool.or_eq_true] at h ⊢
    exact h.imp_left (hwf.contains_insert hinsert)
  rw [Store.perform]
  cases operation with
  | addNode kind payload scope =>
    rw [Operation.edit, Edit.run_map, Edit.run_addNode]
    split <;> exact .inl h
  | addStep step scope =>
    rw [Operation.edit, Edit.run_map, Edit.run_addStep]
    split
    · exact .inl h
    · rename_i payload hpayload
      split
      · exact .inl h
      · left
        cases hout : step.output? with
        | none => exact h
        | some output =>
          obtain ⟨vars, hinsert⟩ := Edit.exists_insert_of_stepPayload hpayload hout
          exact hinserted (Edit.insert_outputVariable hinsert)
  | removeNode id =>
    rw [Operation.edit, Edit.run_map, Edit.run_removeNode]
    split
    · exact .inl h
    · rename_i node hnode
      rw [VariableTable.isResolvable, Bool.or_eq_true] at h
      rcases h with h | h
      · rcases hwf.contains_filter (fun v => !(store.graph.treeIds id).contains v.producer) h with
          hkept | ⟨v, hv, hname, hproducer⟩
        · left
          rw [VariableTable.isResolvable, Bool.or_eq_true]
          exact .inl hkept
        · rw [Bool.not_eq_false', List.contains_iff_mem] at hproducer
          exact .inr ⟨id, rfl, by rw [hnode]; rfl, v, hv, hname, hproducer⟩
      · left
        rw [VariableTable.isResolvable, h, Bool.or_true]
  | moveNode id position =>
    rw [Operation.edit, Edit.run_map, Edit.run_moveNode]
    split <;> exact .inl h
  | connect source target handle =>
    rw [Operation.edit, Edit.run_map, Edit.run_connect]
    dsimp only
    split <;> exact .inl h
  | reconnect id source target handle =>
    rw [Operation.edit, Edit.run_map, Edit.run_reconnect]
    split
    · exact .inl h
    · split <;> exact .inl h
  | disconnect id =>
    rw [Operation.edit, Edit.run_map, Edit.run_disconnect]
    split
    · exact .inl h
    · split
      · exact .inl h
      · split <;> exact .inl h
  | registerVariable name' displayName producer =>
    rw [Operation.edit, Edit.run_map, Edit.run_registerVariable]
    split
    · exact .inl h
    · split
      · exact .inl h
      · rename_i hinsert
        exact .inl (hinserted hinsert)
  | registerAssistant name' model personality =>
    rw [Operation.edit, Edit.run_map, Edit.run_registerAssistant]
    split <;> exact .inl h

end StepGraph
