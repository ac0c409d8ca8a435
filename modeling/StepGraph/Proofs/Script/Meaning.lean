import StepGraph.Proofs.Condition.OneLine
import StepGraph.Proofs.Script.Complete
import StepGraph.Proofs.Script.Parts
import StepGraph.Proofs.Script.Reading

/-!
# Scripts do what graphs say

The containment of a graph can be run without a script: a node runs its
code, or the nodes in one of its slots (`Containment.runStep`). The script of
a graph, read as statements, runs the same lines (`compile_runs`). From the
inside out, the text of every node means the run of the node (`means_node`);
for this, code has to come in whole lines that branch nothing, and what
stands in a branching line has to be on one line (`Plain`).
-/

namespace StepGraph

open Generation Reading
open Text (Written linesOf)

variable {registry : Registry} {nodes : List Node} {n : Node}

/-! ## Running the containment -/

/-- What a switch runs: the case in the slot of its value, and where there is
none the nodes of the default. -/
def Containment.runCase (view : Containment) (run : Node → List String) (switch value : String) :
    List String :=
  match view.slotChildren switch (.caseBranch value) with
  | [] => (view.slotChildren switch .defaultBranch).flatMap run
  | chosen :: _ => run chosen

/-- **What a node runs**, given what the nodes in its slots run. A conditional
chooses by its condition and a switch by its value; cases and groups run what
they hold, and a node of an unregistered kind runs nothing. -/
def Containment.runStep (view : Containment) (registry : Registry) (env : Env)
    (run : Node → List String) (n : Node) : List String :=
  match registry.builtin? n.kind with
  | none => []
  | some .action => linesOf (String.join n.payload.code)
  | some .conditional =>
    match n.config ConditionalConfig.decode with
    | .error _ => []
    | .ok config =>
      if env.holds (renderCondition config.comparisons config.connectors) then
        (view.slotChildren n.id .ifBranch).flatMap run
      else (view.slotChildren n.id .elseBranch).flatMap run
  | some .switch =>
    match n.config SwitchConfig.decode with
    | .error _ => []
    | .ok config => view.runCase run n.id (env.value config.operand.render)
  | some .caseNode => (view.slotChildren n.id .body).flatMap run
  | some .group => (view.slotChildren n.id .body).flatMap run

/-- **A run of the containment** says of each node what it runs. -/
def Containment.IsRun (view : Containment) (registry : Registry) (env : Env)
    (run : Node → List String) : Prop :=
  ∀ n ∈ view.nodes, run n = view.runStep registry env run n

/-- Running looks at the nodes that a node owns. -/
theorem looksInside_runStep (env : Env) :
    LooksInside nodes ((Containment.mk nodes).runStep registry env) := by
  intro n _ f g h
  have hslot {slot : Slot} {m : Node} (hm : m ∈ (Containment.mk nodes).slotChildren n.id slot) :
      f m = g m := by
    obtain ⟨hm, hscope⟩ := Containment.mem_slotChildren.mp hm
    exact h m hm (owner?_of_scope hscope)
  have hflat (slot : Slot) : ((Containment.mk nodes).slotChildren n.id slot).flatMap f =
      ((Containment.mk nodes).slotChildren n.id slot).flatMap g :=
    List.flatMap_congr fun m hm => hslot hm
  unfold Containment.runStep
  cases registry.builtin? n.kind with
  | none => rfl
  | some b =>
    cases b with
    | action => rfl
    | conditional =>
      dsimp only
      rw [hflat, hflat]
    | switch =>
      dsimp only
      cases n.config SwitchConfig.decode with
      | error error => rfl
      | ok config =>
        dsimp only
        unfold Containment.runCase
        split
        · exact hflat _
        · rename_i hchildren
          exact hslot (by rw [hchildren]; exact List.mem_cons_self)
    | caseNode => exact hflat _
    | group => exact hflat _

/-- **A switch chooses the case of its value.** It is the one node in the slot
of the value, which is among the occupied case slots when there is one. -/
theorem Nested.find?_caseSlots (h : Nested registry nodes) {kind : Kind} (hn : n ∈ nodes)
    (hbound : registry.get? n.kind = some kind) (run : Node → List String) (value : String) :
    (((Containment.mk nodes).caseSlots n.id).find? fun slot => slot.value == value).elim
        (((Containment.mk nodes).slotChildren n.id .defaultBranch).flatMap run)
        (fun slot => ((Containment.mk nodes).slotChildren n.id slot).flatMap run) =
      (Containment.mk nodes).runCase run n.id value := by
  unfold Containment.runCase
  cases hfind : ((Containment.mk nodes).caseSlots n.id).find? fun slot => slot.value == value with
  | some slot =>
    obtain ⟨label, rfl, m, hm, hscope⟩ :=
      Containment.mem_caseSlots.mp (List.mem_of_find?_eq_some hfind)
    have hfound := List.find?_some hfind
    obtain rfl : label = value := eq_of_beq hfound
    -- the slot is occupied, by one node and no other
    have hmem := Containment.mem_slotChildren.mpr ⟨hm, hscope⟩
    rcases h.slotChildren_caseBranch hn hbound label with hnil | ⟨chosen, hone⟩
    · rw [hnil] at hmem
      cases hmem
    · rw [Option.elim_some, hone, List.flatMap_singleton]
  | none =>
    have hnil : (Containment.mk nodes).slotChildren n.id (.caseBranch value) = [] := by
      refine List.eq_nil_iff_forall_not_mem.mpr fun m hmem => ?_
      obtain ⟨hm, hscope⟩ := Containment.mem_slotChildren.mp hmem
      have hslot : .caseBranch value ∈ (Containment.mk nodes).caseSlots n.id :=
        Containment.mem_caseSlots.mpr ⟨value, rfl, m, hm, hscope⟩
      have hne := List.find?_eq_none.mp hfind _ hslot
      exact hne (beq_self_eq_true value)
    rw [Option.elim_none, hnil]

/-! ## Texts of the kinds -/

/-- What means something is a block as it is: it is empty or ends with a line
feed. -/
theorem Reading.Means.block_eq {text : String} {meaning : Env → List String}
    (h : Means text meaning) : block text = text := by
  obtain ⟨lines, stmts, hwritten, -⟩ := h
  exact block_eq_of_whole hwritten.whole

/-- The text of a conditional is a branch. -/
theorem means_compileConditional {config : ConditionalConfig} {bodies : List SlotBody}
    {code : String} {thens elses : Env → List String}
    (hconfig : n.config ConditionalConfig.decode = .ok config)
    (hone : ∀ c ∈ config.comparisons, c.OneLine)
    (hthens : Means (bodyOf bodies .ifBranch) thens)
    (helses : Means (bodyOf bodies .elseBranch) elses)
    (hcode : Builtin.compileConditional n bodies = .ok code) :
    Means code fun env =>
      if env.holds (renderCondition config.comparisons config.connectors) then thens env
      else elses env := by
  rw [Builtin.compileConditional, hconfig, hthens.block_eq, helses.block_eq] at hcode
  obtain rfl := Except.ok.inj hcode
  exact .branch (newline_not_mem_renderCondition hone _) hthens helses

/-- The text of a switch is a choice. -/
theorem means_compileSwitch {config : SwitchConfig} {slots : List Slot} {text : Slot → String}
    {code : String} {meaning : Slot → Env → List String}
    (hconfig : n.config SwitchConfig.decode = .ok config) (hone : config.operand.OneLine)
    (hcase : ∀ slot ∈ slots, ∃ value, slot = .caseBranch value)
    (hslot : ∀ slot, Means (text slot) (meaning slot))
    (hcode : Builtin.compileSwitch n
      ((slots ++ [Slot.defaultBranch]).map fun slot => ⟨slot, text slot⟩) = .ok code) :
    Means code fun env =>
      (slots.find? fun slot => slot.value == env.value config.operand.render).elim
        (meaning .defaultBranch env) (meaning · env) := by
  have hlast : Slot.defaultBranch ∈ slots ++ [Slot.defaultBranch] :=
    List.mem_append_right _ (List.mem_singleton_self _)
  have hdefault : bodyOf ((slots ++ [Slot.defaultBranch]).map fun slot => ⟨slot, text slot⟩)
      .defaultBranch = text .defaultBranch := bodyOf_map hlast
  rw [Builtin.compileSwitch, hconfig, hdefault, Builtin.join_caseText hcase] at hcode
  simp only [(hslot _).block_eq] at hcode
  obtain rfl := Except.ok.inj hcode
  have hbodies : ∀ slot ∈ slots, Means (text slot) (meaning slot) := fun slot _ => hslot slot
  exact .choice Slot.value (Operand.newline_not_mem_render hone) hbodies (hslot .defaultBranch)

/-! ## Plain graphs -/

/-- **Plain nodes**: the code of an action comes in whole lines that branch
nothing, and variables and raw expressions have no line feed. -/
structure Plain (registry : Registry) (nodes : List Node) : Prop where
  code : ∀ n ∈ nodes, registry.builtin? n.kind = some .action →
    ∃ lines, Written (String.join n.payload.code) lines ∧ ∀ line ∈ lines, ¬ IsControl line
  comparisons : ∀ n ∈ nodes, registry.builtin? n.kind = some .conditional →
    ∀ config, n.config ConditionalConfig.decode = .ok config →
      ∀ c ∈ config.comparisons, c.OneLine
  operand : ∀ n ∈ nodes, registry.builtin? n.kind = some .switch →
    ∀ config, n.config SwitchConfig.decode = .ok config → config.operand.OneLine

section Means

variable {emit : Node → Fragment} {run : Env → Node → List String}

/-- The text of a slot means the runs of the nodes in it. -/
theorem means_slotCode {setting : Setting} (slot : Slot)
    (ih : ∀ m ∈ setting.containment.nodes, m.owner? = some n.id →
      Means (emit m).code fun env => run env m) :
    Means (slotCode setting emit n slot)
      fun env => (setting.containment.slotChildren n.id slot).flatMap (run env) := by
  refine Means.join fun m hm => ?_
  obtain ⟨hm, hscope⟩ := Containment.mem_slotChildren.mp hm
  exact ih m hm (owner?_of_scope hscope)

/-- **The text of a node means the run of the node.** -/
theorem means_node (h : Nested registry nodes) (hreg : registry.OnlyBuiltins)
    (hvalid : Validated ⟨registry, ⟨nodes⟩, false⟩) (hplain : Plain registry nodes)
    (hemit : Emits ⟨registry, ⟨nodes⟩, false⟩ emit)
    (hrun : ∀ env, (Containment.mk nodes).IsRun registry env (run env)) :
    ∀ n ∈ nodes, Means (emit n).code fun env => run env n := by
  refine h.rooted.induction fun n hn ih => ?_
  have hstep : (fun env => run env n) = fun env =>
      (Containment.mk nodes).runStep registry env (run env) n := funext fun env => hrun env n hn
  rw [hstep, hemit n hn]
  cases hget : registry.get? n.kind with
  | none =>
    -- nothing is written, nothing is run
    have hnone : registry.builtin? n.kind = none := hreg.builtin?_eq_none_iff.mpr hget
    rw [emitStep, hget]
    unfold Containment.runStep
    rw [hnone]
    exact .nil
  | some kind =>
    obtain ⟨b, rfl⟩ := hreg _ _ hget
    have hb : registry.builtin? n.kind = some b := Registry.builtin?_of_get? hget
    obtain ⟨code, hcode⟩ := Builtin.compile_isOk_of_validate (hvalid n hn _ hget)
      (bodiesOf ⟨registry, ⟨nodes⟩, false⟩ emit b.kind n)
    have hslot (slot : Slot) : Means (slotCode ⟨registry, ⟨nodes⟩, false⟩ emit n slot)
        fun env => ((Containment.mk nodes).slotChildren n.id slot).flatMap (run env) :=
      means_slotCode slot ih
    have hbody {slot : Slot} (hdecl : slot ∈ b.kind.declaredSlots n ⟨nodes⟩) :
        bodyOf (bodiesOf ⟨registry, ⟨nodes⟩, false⟩ emit b.kind n) slot =
          slotCode ⟨registry, ⟨nodes⟩, false⟩ emit n slot := bodyOf_map hdecl
    -- without comments the text of the node is what its kind has compiled
    have hemitted : (emitStep ⟨registry, ⟨nodes⟩, false⟩ emit n).code = code := by
      rw [emitStep_eq hget hcode]
      exact String.empty_append
    rw [hemitted]
    unfold Containment.runStep
    rw [hb]
    cases b with
    | action =>
      obtain rfl := Except.ok.inj hcode
      obtain ⟨lines, hwritten, hlines⟩ := hplain.code n hn hb
      dsimp only
      rw [hwritten.linesOf_eq]
      exact .code hwritten hlines
    | conditional =>
      have hcompile : Builtin.compileConditional n
          (bodiesOf ⟨registry, ⟨nodes⟩, false⟩ emit Builtin.conditional.kind n) = .ok code := hcode
      obtain ⟨config, hconfig, -⟩ := Checks.bind_eq_ok_iff.mp hcompile
      have hthens := hslot .ifBranch
      have helses := hslot .elseBranch
      rw [← hbody List.mem_cons_self] at hthens
      rw [← hbody (List.mem_cons_of_mem _ List.mem_cons_self)] at helses
      dsimp only
      rw [hconfig]
      exact means_compileConditional hconfig (hplain.comparisons n hn hb config hconfig) hthens
        helses hcompile
    | switch =>
      have hcompile : Builtin.compileSwitch n
          (bodiesOf ⟨registry, ⟨nodes⟩, false⟩ emit Builtin.switch.kind n) = .ok code := hcode
      obtain ⟨config, hconfig, -⟩ := Checks.bind_eq_ok_iff.mp hcompile
      have hcases : ∀ slot ∈ (Containment.mk nodes).caseSlots n.id,
          ∃ value, slot = .caseBranch value := fun slot hmem =>
        (Containment.mem_caseSlots.mp hmem).imp fun _ => And.left
      have hone := hplain.operand n hn hb config hconfig
      have hmeans := means_compileSwitch hconfig hone hcases hslot hcompile
      dsimp only
      rw [hconfig]
      -- the case that the text chooses is the one in the slot of the value
      have hchoice (env : Env) :=
        h.find?_caseSlots hn hget (run env) (env.value config.operand.render)
      simp only [← hchoice]
      exact hmeans
    | caseNode =>
      -- a case and a group hand on the text of their body as it is
      obtain rfl := Except.ok.inj hcode
      rw [hbody List.mem_cons_self]
      exact hslot .body
    | group =>
      obtain rfl := Except.ok.inj hcode
      rw [hbody List.mem_cons_self]
      exact hslot .body

end Means

/-! ## Scripts -/

/-- **What the script of a graph does**: read as statements, it runs what the
containment runs. -/
structure Script.Runs (registry : Registry) (view : Containment) (script : Script)
    (stmts : List Stmt) : Prop where
  /-- The body is read line by line as these statements. -/
  reads : read script.body = some stmts
  /-- Every scope holds its nodes, ordered by sequence number and id. -/
  siblings : ∀ scope, (view.children scope).Pairwise (fun m n => m.precedes n = true) ∧
    ∀ n, n ∈ view.children scope ↔ n ∈ view.nodes ∧ n.scope = scope
  /-- In the slot of a value on a switch is the case of this value and nothing
  else. -/
  cases : ∀ n ∈ view.nodes, registry.builtin? n.kind = some .switch → ∀ value,
    ∀ m ∈ view.slotChildren n.id (.caseBranch value),
      registry.builtin? m.kind = some .caseNode ∧ Builtin.caseValue m.payload = value ∧
        view.slotChildren n.id (.caseBranch value) = [m]
  /-- The containment can be run. -/
  exists_run : ∀ env, ∃ run, view.IsRun registry env run
  /-- The statements run the lines that the top level runs. -/
  runs : ∀ env run, view.IsRun registry env run → runAll env stmts = view.root.flatMap run

/-- **On plain nested nodes that validate the script does what the
containment says.** -/
theorem generate_runs (h : Nested registry nodes) (hreg : registry.OnlyBuiltins)
    (hvalid : Validated ⟨registry, ⟨nodes⟩, false⟩) (hplain : Plain registry nodes) :
    ∃ stmts, (Script.generate registry ⟨nodes⟩ false).Runs registry ⟨nodes⟩ stmts := by
  have hexists (env : Env) : ∃ run, (Containment.mk nodes).IsRun registry env run :=
    h.rooted.exists_solution (looksInside_runStep env)
  choose run hrun using hexists
  have hemit : Emits ⟨registry, ⟨nodes⟩, false⟩
      (nodeFragment ⟨registry, ⟨nodes⟩, false⟩ nodes.length) := emits_nodeFragment h
  have hnode := means_node h hreg hvalid hplain hemit hrun
  have hbody : (Script.generate registry ⟨nodes⟩ false).body =
      String.join ((Containment.mk nodes).root.map fun n =>
        (nodeFragment ⟨registry, ⟨nodes⟩, false⟩ nodes.length n).code) :=
    (generate_complete h hreg hvalid).body
  have hmeans : Means (Script.generate registry ⟨nodes⟩ false).body
      fun env => (Containment.mk nodes).root.flatMap (run env) := by
    rw [hbody]
    exact .join fun n hn => hnode n (Containment.mem_children.mp hn).1
  obtain ⟨stmts, hread, hstmts⟩ := hmeans.read_eq
  refine ⟨stmts, hread, fun scope => ⟨Containment.children_sorted h.distinct,
    fun n => Containment.mem_children⟩, ?_, fun env => ⟨run env, hrun env⟩, ?_⟩
  · intro n hn hb value m hmem
    have hget := hreg.builtin?_eq_some_iff.mp hb
    obtain ⟨hm, hscope⟩ := Containment.mem_slotChildren.mp hmem
    obtain ⟨hkind, hvalue⟩ := h.case_of_caseBranch hn hget hm hscope
    refine ⟨hkind, hvalue, ?_⟩
    rcases h.slotChildren_caseBranch hn hget value with hnil | ⟨chosen, hone⟩
    · rw [hnil] at hmem
      cases hmem
    · rw [hone, List.mem_singleton] at hmem
      rw [hone, hmem]
  · intro env other hother
    have hsame := h.rooted.solution_unique (looksInside_runStep env) hother (hrun env)
    rw [hstmts]
    exact List.flatMap_congr fun n hn => (hsame n (Containment.mem_children.mp hn).1).symm

/-- **The script of a reachable store does what its graph says**, where the
graph validates and is plain. -/
theorem compile_runs (aliases : List (String × String)) {store : Store}
    (h : Reachable (Registry.builtin.withAliases aliases) store)
    (hvalid : store.graph.validate (Registry.builtin.withAliases aliases) = .ok ())
    (hplain : Plain (Registry.builtin.withAliases aliases) store.graph.nodes) :
    ∃ script stmts,
      store.graph.compile (Registry.builtin.withAliases aliases) false = .ok script ∧
      script.Runs (Registry.builtin.withAliases aliases) store.graph.containment stmts := by
  have hreg := Registry.onlyBuiltins_withAliases aliases
  obtain ⟨stmts, hruns⟩ :=
    generate_runs (h.nested hreg) hreg (Graph.validate_eq_ok_iff.mp hvalid) hplain
  refine ⟨_, stmts, ?_, hruns⟩
  rw [Graph.compile, hvalid]
  rfl

/-- A conditional with a step, and on its other side a switch with a step in
its one case. -/
def Document.withChoice : Document where
  nodes := [
    ⟨"c", "conditional", none, 0, .origin, ⟨"", [], .object [("comparisons",
      .array [(Comparison.mk (.reference "ready") .isPresent none).toJson])]⟩⟩,
    ⟨"a", "step", some "c-if", 0, .origin, ⟨"", ["go();\n"], .null⟩⟩,
    ⟨"s", "switch", some "c-else", 0, .origin,
      ⟨"", [], .object [("variable", (Operand.reference "mode").toJson)]⟩⟩,
    ⟨"k", "case", some "s-case-on", 0, .origin, ⟨"", [], .object [("value", .string "on")]⟩⟩,
    ⟨"b", "step", some "k", 0, .origin, ⟨"", ["wait();\n", "go();\n"], .null⟩⟩]
  edges := []
  vars := []
  assistants := []

/-- The code of its steps is written in lines, and its variables have no line
feed. -/
theorem Document.plain_withChoice :
    Plain (Registry.builtin.withAliases [("step", "action")]) Document.withChoice.resolved := by
  refine ⟨List.forall_mem_map.mpr ?_, List.forall_mem_map.mpr ?_, List.forall_mem_map.mpr ?_⟩
  · simp only [Document.withChoice, List.forall_mem_cons]
    refine ⟨fun h => absurd h (by decide), fun _ => ?_, fun h => absurd h (by decide),
      fun h => absurd h (by decide), fun _ => ?_, nofun⟩
    · exact ⟨["go();"], ⟨by decide, by decide⟩, by decide⟩
    · exact ⟨["wait();", "go();"], ⟨by decide, by decide⟩, by decide⟩
  · simp only [Document.withChoice, List.forall_mem_cons]
    refine ⟨fun _ config hconfig => ?_, fun h => absurd h (by decide),
      fun h => absurd h (by decide), fun h => absurd h (by decide),
      fun h => absurd h (by decide), nofun⟩
    obtain rfl : ConditionalConfig.mk [⟨.reference "ready", .isPresent, none⟩] [] = config :=
      Except.ok.inj hconfig
    exact List.forall_mem_singleton.mpr ⟨by decide, nofun⟩
  · simp only [Document.withChoice, List.forall_mem_cons]
    refine ⟨fun h => absurd h (by decide), fun h => absurd h (by decide),
      fun _ config hconfig => ?_, fun h => absurd h (by decide),
      fun h => absurd h (by decide), nofun⟩
    obtain rfl : SwitchConfig.mk (.reference "mode") = config := Except.ok.inj hconfig
    decide

theorem compile_runs_withChoice :
    ∃ store, Reachable (Registry.builtin.withAliases [("step", "action")]) store ∧
      ∃ script stmts,
        store.graph.compile (Registry.builtin.withAliases [("step", "action")]) false = .ok script ∧
        script.Runs (Registry.builtin.withAliases [("step", "action")])
          store.graph.containment stmts := by
  obtain ⟨result, hload, hvalid⟩ : ∃ result,
      Document.withChoice.load (Registry.builtin.withAliases [("step", "action")]) ⟨fun _ => 0, 0⟩ =
        .ok result ∧
      result.store.graph.validate (Registry.builtin.withAliases [("step", "action")]) = .ok () :=
    ⟨_, rfl, rfl⟩
  have hreach : Reachable (Registry.builtin.withAliases [("step", "action")]) result.store :=
    ⟨result.store, [], .loaded hload, rfl⟩
  obtain ⟨-, rfl⟩ := (Document.load_eq_ok_iff (Registry.onlyBuiltins_withAliases _)).mp hload
  exact ⟨_, hreach, compile_runs [("step", "action")] hreach hvalid Document.plain_withChoice⟩

end StepGraph
