import StepGraph.Proofs.Step.References
import StepGraph.Proofs.Store.Origin
import StepGraph.Proofs.Store.Refusal

/-!
# The names that stored steps refer to

A step is checked once, when it is added: the names that it refers to are
known then. They stay known as long as no node is removed together with the
producer of one of them (`resolvable_or_taken`). A removal asks for nothing:
it takes the variables of the nodes that go, and steps that refer to them
stay as they are (`removal_leaves_reference`).
-/

namespace StepGraph

variable {registry : Registry} {ids : IdSource} {store start : Store}
variable {operation : Operation} {operations : List Operation} {n m : Node} {name : String}

/-- Whether an operation adds an action without a step. -/
def Operation.addsBareAction : Operation → Bool
  | addNode kind _ _ => kind = Builtin.action.tag
  | _ => false

/-- **A run in which actions come from steps**: whatever else adds one is
refused. -/
def Store.StepsOnly (start : Store) (operations : List Operation) : Prop :=
  ∀ entry ∈ start.transcript operations, entry.1.addsBareAction = true → entry.2.isOk = false

/-- **A run takes a name away from a node**: at some point of the run, while
the node is there and stays there, another node is removed together with the
producer of the variable of that name. -/
def Store.TakesFrom (start : Store) (operations : List Operation) (n : Node) (name : String) :
    Prop :=
  ∃ before id after, operations = before ++ .removeNode id :: after ∧
    (start.performAll before).2.Takes id name ∧
    ∃ m ∈ (start.performAll before).2.graph.nodes, m.SameContent n ∧
      m.id ∉ (start.performAll before).2.graph.treeIds id

/-! ## The last operation of a run -/

theorem transcript_concat (start : Store) (operations : List Operation) (operation : Operation) :
    start.transcript (operations ++ [operation]) =
      start.transcript operations ++
        [(operation, ((start.performAll operations).2.perform operation).1)] := by
  induction operations generalizing start with
  | nil => rfl
  | cons first rest ih => exact congrArg _ (ih _)

/-- What a run has taken away stays taken. -/
theorem Store.TakesFrom.concat (h : start.TakesFrom operations m name) (hsame : m.SameContent n)
    (operation : Operation) : start.TakesFrom (operations ++ [operation]) n name := by
  obtain ⟨before, id, after, rfl, htakes, l, hl, hcontent, hstays⟩ := h
  refine ⟨before, id, after ++ [operation], ?_, htakes, l, hl, hcontent.trans hsame, hstays⟩
  rw [List.append_assoc, List.cons_append]

/-! ## Steps in a run -/

/-- What is known of an action in a run: its configuration is a step, and the
names that the step refers to are known or were taken away. -/
def Store.Refers (start : Store) (operations : List Operation) (n : Node) : Prop :=
  ∃ step : Step, n.payload.config = step.toJson ∧ ∀ name ∈ step.references,
    (start.performAll operations).2.graph.vars.isResolvable name = true ∨
      start.TakesFrom operations n name

/-- **A step is added** with names that are known. -/
theorem isResolvable_of_stepPayload {g : Graph} {step : Step} {payload : Payload}
    (h : Edit.stepPayload g step = .ok payload) :
    ∀ name ∈ step.references, g.vars.isResolvable name = true := by
  obtain ⟨code, hcode, -⟩ := Checks.bind_eq_ok_iff.mp (Edit.payload_of_stepPayload h)
  exact Step.isResolvable_of_fragments hcode

/-- What a removal leaves was there and is not inside the node that goes. -/
theorem mem_of_mem_perform_removeNode {id : String} (h : (store.graph.node? id).isSome)
    (hn : n ∈ (store.perform (.removeNode id)).2.graph.nodes) :
    n ∈ store.graph.nodes ∧ n.id ∉ store.graph.treeIds id := by
  obtain ⟨node, hnode⟩ := Option.isSome_iff_exists.mp h
  rw [Store.perform, Operation.edit, Edit.run_map, Edit.run_removeNode, hnode] at hn
  obtain ⟨hmem, hkept⟩ := List.mem_filter.mp hn
  refine ⟨hmem, fun htree => ?_⟩
  rw [List.contains_iff_mem.mpr htree] at hkept
  cases hkept

/-- **One more operation** leaves what is known of an action that was there. -/
theorem Store.Refers.concat (h : start.Refers operations m) (hsame : m.SameContent n)
    (hwf : (start.performAll operations).2.graph.vars.WellFormed)
    (hn : n ∈ ((start.performAll operations).2.perform operation).2.graph.nodes) :
    start.Refers (operations ++ [operation]) n := by
  obtain ⟨step, hconfig, hnames⟩ := h
  refine ⟨step, hsame.2.2 ▸ hconfig, fun name hname => ?_⟩
  rcases hnames name hname with hknown | htaken
  · rcases isResolvable_perform hwf hknown operation with hkept | ⟨id, rfl, htakes⟩
    · left
      rw [performAll_concat]
      exact hkept
    · obtain ⟨hmem, hstays⟩ := mem_of_mem_perform_removeNode htakes.1 hn
      exact .inr ⟨operations, id, [], rfl, htakes, n, hmem, ⟨rfl, rfl, rfl⟩, hstays⟩
  · exact .inr (htaken.concat hsame operation)

/-- **Actions of a run refer to names that are known or were taken away.** -/
theorem refers_of_mem (hreg : registry.OnlyBuiltins)
    (hstart : start.Sound ∧ start.registry = registry) (hempty : start.graph.nodes = [])
    (hsteps : start.StepsOnly operations) :
    ∀ n ∈ (start.performAll operations).2.graph.nodes, n.kind = Builtin.action.tag →
      start.Refers operations n := by
  -- along the run, from its beginning to its last operation
  induction operations using List.reverseRecOn with
  | nil =>
    intro n hn
    rw [show (start.performAll []).2 = start from rfl, hempty] at hn
    cases hn
  | append_singleton operations operation ih =>
    intro n hn hkind
    rw [performAll_concat] at hn
    rw [Store.StepsOnly, transcript_concat] at hsteps
    obtain ⟨hbefore, hlast⟩ := List.forall_mem_append.mp hsteps
    have hwf := (sound_performAll hreg hstart operations).1.graph.vars
    rcases content_of_mem_perform hn with ⟨m, hm, hsame⟩ | hbrings
    · exact (ih hbefore m hm (hsame.2.1.trans hkind)).concat hsame hwf hn
    rcases hbrings.cases with ⟨scope, rfl⟩ | ⟨step, scope, rfl, -, hpayload⟩
    · -- an action without a step is refused, so the node was there before
      have hrefused := List.forall_mem_singleton.mp hlast (by simpa [Operation.addsBareAction])
      cases hanswer : ((start.performAll operations).2.perform
          (.addNode n.kind n.payload scope)).1 with
      | ok answer =>
        rw [hanswer] at hrefused
        cases hrefused
      | error error =>
        have hn' := hn
        rw [perform_refused rfl hanswer] at hn'
        exact (ih hbefore n hn' hkind).concat ⟨rfl, rfl, rfl⟩ hwf hn
    · -- the names were known when the step was added, and it takes none away
      refine ⟨step, Edit.config_of_stepPayload hpayload, fun name hname => .inl ?_⟩
      rw [performAll_concat]
      have hknown := isResolvable_of_stepPayload hpayload name hname
      exact (isResolvable_perform hwf hknown (.addStep step scope)).resolve_right
        fun ⟨_, hremoves, _⟩ => nomatch hremoves

/-- **Stored steps refer to names that are known, unless a removal takes them
away.** In every run from an empty store in which actions come from steps, the
configuration of every action is a step, and every name that this step refers
to, by a placeholder in a text or as an operand, is a variable of the store or
ambient, or a later removal took it away, going off with the producer of the
variable while the action stayed. -/
theorem resolvable_or_taken (ids : IdSource) (operations : List Operation)
    (hsteps : (Store.empty .builtin ids).StepsOnly operations) :
    let start := Store.empty .builtin ids
    let store := (start.performAll operations).2
    ∀ n ∈ store.graph.nodes, n.kind = Builtin.action.tag →
      (∃ step : Step, n.payload.config = step.toJson) ∧
      ∀ step : Step, n.payload.config = step.toJson → ∀ name ∈ step.references,
        store.graph.vars.isResolvable name = true ∨ start.TakesFrom operations n name := by
  intro start store n hn hkind
  have hreg : Registry.builtin.OnlyBuiltins := Registry.onlyBuiltins_withAliases []
  obtain ⟨step, hconfig, hnames⟩ :=
    refers_of_mem hreg ⟨Store.sound_empty, rfl⟩ rfl hsteps n hn hkind
  refine ⟨⟨step, hconfig⟩, fun step' hconfig' name hname => hnames name ?_⟩
  rw [Step.references_eq_of_toJson_eq (hconfig.symm.trans hconfig')]
  exact hname

/-- A step that stores a variable which an earlier step sets, and the removal
of the earlier step. -/
def removedProducer : List Operation :=
  [.addStep (.setVariable ⟨"code", "Code"⟩ (.text "1")) none,
    .addStep (.storeValue "last" (.reference "code")) none, .removeNode "node_00000000"]

/-- The action that the removal leaves. -/
def leftBehind : Node :=
  ⟨"node_00000001", "action", none, 1, .origin,
    ⟨"Store last", ["await storage.set(contactId, 'last', code);\n"],
      (Step.storeValue "last" (.reference "code")).toJson⟩⟩

theorem nodes_removedProducer :
    ((Store.empty .builtin ⟨Nat.toUInt32, 0⟩).performAll removedProducer).2.graph.nodes =
      [leftBehind] := rfl

theorem stepsOnly_removedProducer :
    (Store.empty .builtin ⟨Nat.toUInt32, 0⟩).StepsOnly removedProducer := by
  have htranscript : (Store.empty .builtin ⟨Nat.toUInt32, 0⟩).transcript removedProducer =
      removedProducer.zip [.ok (some "node_00000000"), .ok (some "node_00000001"), .ok none] := rfl
  rw [Store.StepsOnly, htranscript]
  simp [removedProducer, Operation.addsBareAction]

/-- **A removal leaves steps that refer to its variables**: after the run above
a stored step refers to a name that nobody knows. -/
theorem removal_leaves_reference :
    let start := Store.empty .builtin ⟨Nat.toUInt32, 0⟩
    let store := (start.performAll removedProducer).2
    start.StepsOnly removedProducer ∧
      ∃ n ∈ store.graph.nodes, n.kind = Builtin.action.tag ∧
        ∃ step : Step, n.payload.config = step.toJson ∧
          ∃ name ∈ step.references, store.graph.vars.isResolvable name = false := by
  refine ⟨stepsOnly_removedProducer, leftBehind, ?_, rfl, .storeValue "last" (.reference "code"),
    rfl, "code", .head _, by decide⟩
  rw [nodes_removedProducer]
  exact .head _

/-- The run takes the name away from the step that is left. -/
theorem resolvable_or_taken_removedProducer :
    let start := Store.empty .builtin ⟨Nat.toUInt32, 0⟩
    start.StepsOnly removedProducer ∧ start.TakesFrom removedProducer leftBehind "code" := by
  have hmem : leftBehind ∈
      ((Store.empty .builtin ⟨Nat.toUInt32, 0⟩).performAll removedProducer).2.graph.nodes := by
    rw [nodes_removedProducer]
    exact .head _
  obtain ⟨-, hnames⟩ := resolvable_or_taken ⟨Nat.toUInt32, 0⟩ removedProducer
    stepsOnly_removedProducer leftBehind hmem rfl
  refine ⟨stepsOnly_removedProducer, ?_⟩
  exact (hnames (.storeValue "last" (.reference "code")) rfl "code" (.head _)).resolve_left
    (by decide)

end StepGraph
