import StepGraph.Proofs.Script.Pieces
import StepGraph.Proofs.Step.OwnLiteral

/-!
# Switches dispatch on the values of their cases

The value of a case is said three times: in its configuration, in the slot that
it was put into, and in the label that the switch writes. They are the same
(`Nested.caseSlots_eq`), and no two cases of a switch have one value
(`Nested.caseValue_ne`). So the text of a switch is a branch for each of its
cases, in their order, under the quoted value of the case, and behind them the
default (`switch_dispatches`).
-/

namespace StepGraph

open Generation

variable {registry : Registry} {nodes : List Node} {n m a : Node}

/-! ## The cases of a switch -/

/-- The cases that a node holds, in order. -/
def casesOf (registry : Registry) (nodes : List Node) (n : Node) : List Node :=
  ((Containment.mk nodes).ownedBy n.id).filter fun m => registry.builtin? m.kind == some .caseNode

theorem mem_casesOf :
    m ∈ casesOf registry nodes n ↔
      m ∈ nodes ∧ m.owner? = some n.id ∧ registry.builtin? m.kind = some .caseNode := by
  rw [casesOf, List.mem_filter, Containment.mem_ownedBy, beq_iff_eq, and_assoc]

namespace Nested

variable (h : Nested registry nodes) {kind : Kind} (hn : n ∈ nodes)
variable (hbound : registry.get? n.kind = some kind)

include h

/-- Cases stand in the order of siblings. -/
theorem casesOf_sorted (n : Node) :
    (casesOf registry nodes n).Pairwise fun m a => m.precedes a = true :=
  (Containment.ownedBy_sorted h.distinct).filter _

include hn hbound

/-- A case is in the slot of its value. -/
theorem scope_of_mem_casesOf (hm : m ∈ casesOf registry nodes n) :
    m.scope = some ⟨n.id, .caseBranch (Builtin.caseValue m.payload)⟩ := by
  obtain ⟨hm, hown, hcase⟩ := mem_casesOf.mp hm
  have hplace := h.legallyPlaced hn hbound hm hown
  obtain ⟨⟨owner, slot⟩, hscope, rfl⟩ := Option.map_eq_some_iff.mp hown
  rw [LegallyPlaced, hscope] at hplace
  obtain ⟨-, -, -, -, -, ⟨-, hnot⟩ | ⟨-, -, rfl, -⟩⟩ := hplace.of_owner
  · exact absurd hcase hnot
  · exact hscope

/-- **The case slots are those of the values of the cases**, in their order. -/
theorem caseSlots_eq :
    (Containment.mk nodes).caseSlots n.id =
      (casesOf registry nodes n).map fun m => .caseBranch (Builtin.caseValue m.payload) := by
  rw [Containment.caseSlots, casesOf, ← List.filterMap_eq_map, List.filterMap_filter]
  refine List.filterMap_congr fun m hm => ?_
  obtain ⟨hm, hown⟩ := Containment.mem_ownedBy.mp hm
  by_cases hcase : registry.builtin? m.kind = some .caseNode
  · rw [h.scope_of_mem_casesOf hn hbound (mem_casesOf.mpr ⟨hm, hown, hcase⟩), hcase]
    rfl
  · obtain ⟨⟨owner, slot⟩, hscope, rfl⟩ := Option.map_eq_some_iff.mp hown
    rw [hscope, beq_false_of_ne hcase]
    split
    · -- in the slot of a case there is a case
      rename_i value heq
      obtain ⟨rfl, rfl⟩ := Scope.mk.inj (Option.some.inj heq)
      exact absurd (h.case_of_caseBranch hn hbound hm hscope).1 hcase
    · rfl

/-- In the slot of a case is the case alone. -/
theorem slotChildren_of_mem_casesOf (hm : m ∈ casesOf registry nodes n) :
    (Containment.mk nodes).slotChildren n.id (.caseBranch (Builtin.caseValue m.payload)) = [m] := by
  have hmem := Containment.mem_slotChildren.mpr
    ⟨(mem_casesOf.mp hm).1, h.scope_of_mem_casesOf hn hbound hm⟩
  rcases h.slotChildren_caseBranch hn hbound (Builtin.caseValue m.payload) with hnil | ⟨a, hone⟩
  · rw [hnil] at hmem
    cases hmem
  · rw [hone, List.mem_singleton] at hmem
    rw [hone, hmem]

/-- **No two cases of a switch have one value.** -/
theorem caseValue_ne : (casesOf registry nodes n).Pairwise fun m a =>
    Builtin.caseValue m.payload ≠ Builtin.caseValue a.payload := by
  have hnodup := h.caseSlots_nodup hn hbound
  rw [h.caseSlots_eq hn hbound, List.Nodup, List.pairwise_map] at hnodup
  exact hnodup.imp fun hne heq => hne (congrArg Slot.caseBranch heq)

end Nested

/-- A field that is read is there. -/
theorem Json.present_eq_ok_some_iff {α : Type} {members : List (String × Json)} {name : String}
    {decode : Json → Except DecodeError α} {a : α} :
    present members name decode = .ok (some a) ↔
      ∃ value, members.lookup name = some value ∧ decode value = .ok a := by
  rw [present]
  cases members.lookup name with
  | none => simp
  | some value => cases hdecode : decode value <;> simp [hdecode, Functor.map, Except.map]

/-- **A case that validates has a value**, the one that it is known by. -/
theorem Builtin.get?_value_of_validate {view : Containment}
    (h : caseNode.kind.validate n view = .ok ()) :
    n.payload.config.get? "value" = some (.string (caseValue n.payload)) := by
  have hvalid : validateCase n = .ok () := h
  rw [validateCase, Checks.check_bind_eq_ok_iff, Checks.bind_eq_ok_iff] at hvalid
  obtain ⟨hfield, config, hconfig, -⟩ := hvalid
  have hdecode : CaseConfig.decode n.payload.config = .ok config := by
    rw [Node.config] at hconfig
    split at hconfig <;> simp_all
  -- only an object has fields
  rw [requireFields] at hfield
  rw [caseValue]
  cases hvalue : n.payload.config with
  | object members =>
    rw [hvalue] at hdecode
    obtain ⟨value?, hpresent, hdecode⟩ := Checks.bind_eq_ok_iff.mp hdecode
    cases value? with
    | none => cases hdecode
    | some value =>
      obtain ⟨json, hlookup, hjson⟩ := Json.present_eq_ok_some_iff.mp hpresent
      have hget : Json.get? "value" (.object members) = some json := hlookup
      rw [hget]
      cases json <;> cases hjson
      rfl
  | _ => simp [Payload.hasField, hvalue, Json.get?] at hfield

/-! ## The text of a switch -/

/-- **The text of a switch.** In `code` there is a branch for each of `cases`
under its label, and behind these the default. -/
structure Generation.Dispatches (setting : Setting) (emit : Node → Fragment) (n : Node)
    (config : SwitchConfig) (cases : List Node) (code : String) : Prop where
  /-- The switch is configured so. -/
  config_eq : n.config SwitchConfig.decode = .ok config
  /-- The cases are the nodes of this kind that the switch owns. -/
  mem_cases : ∀ m, m ∈ cases ↔ m ∈ setting.containment.nodes ∧ m.owner? = some n.id ∧
    setting.registry.builtin? m.kind = some .caseNode
  /-- They stand in the order of sequence number and id, each of them once. -/
  sorted : cases.Pairwise fun m a => m.precedes a = true
  /-- The value of a case stands in its configuration. -/
  value : ∀ m ∈ cases,
    m.payload.config.get? "value" = some (.string (Builtin.caseValue m.payload))
  /-- The text is made of the outputs of the cases and of the nodes of the
  default. -/
  code_eq : code = "switch (" ++ config.operand.render ++ ") \x7b\n" ++
    String.join (cases.map fun m =>
      "case " ++ Text.quote (Builtin.caseValue m.payload) ++ ":\n" ++ block (emit m).code ++
        "break;\n") ++
    "default:\n" ++ block (slotCode setting emit n .defaultBranch) ++ "break;\n\x7d\n"
  /-- No two labels are the same text. -/
  labels : cases.Pairwise fun m a =>
    Text.quote (Builtin.caseValue m.payload) ≠ Text.quote (Builtin.caseValue a.payload)
  /-- The output of the switch is this text behind its comment. -/
  output : (emit n).code =
    (if setting.comments then commentLine n.payload.label else "") ++ code

/-- **A switch that is compiled dispatches on the values of its cases.** -/
theorem Generation.dispatches {setting : Setting} {emit : Node → Fragment}
    (h : Nested setting.registry setting.containment.nodes) (hreg : setting.registry.OnlyBuiltins)
    (hvalid : Validated setting) (hemit : Emits setting emit)
    (hn : n ∈ setting.containment.nodes)
    (hget : setting.registry.get? n.kind = some Builtin.switch.kind) {code : String}
    (hcode : Builtin.switch.kind.compile n (bodiesOf setting emit Builtin.switch.kind n) =
      .ok code) :
    ∃ config, Dispatches setting emit n config
      (casesOf setting.registry setting.containment.nodes n) code := by
  obtain ⟨ps, hparts⟩ := Builtin.exists_parts (hvalid n hn _ hget)
  rw [compile_bodiesOf hparts] at hcode
  obtain rfl := Except.ok.inj hcode
  have houtput := hemit.code_eq hn hget hparts
  obtain ⟨config, hconfig, hps⟩ := Checks.bind_eq_ok_iff.mp hparts
  obtain rfl := Except.ok.inj hps
  refine ⟨config, hconfig, fun m => mem_casesOf, h.casesOf_sorted n, ?_, ?_, ?_, houtput⟩
  · intro m hm
    obtain ⟨hm, -, hcase⟩ := mem_casesOf.mp hm
    exact Builtin.get?_value_of_validate (hvalid m hm _ (hreg.builtin?_eq_some_iff.mp hcase))
  · -- the slots are those of the cases, and in each of them is the case alone
    have hbranch : ∀ m ∈ casesOf setting.registry setting.containment.nodes n,
        "case " ++ Text.quote (Slot.caseBranch (Builtin.caseValue m.payload)).value ++ ":\n" ++
            block (slotCode setting emit n (.caseBranch (Builtin.caseValue m.payload))) ++
            "break;\n" =
          "case " ++ Text.quote (Builtin.caseValue m.payload) ++ ":\n" ++ block (emit m).code ++
            "break;\n" := by
      intro m hm
      have halone := h.slotChildren_of_mem_casesOf hn hget hm
      rw [slotCode, halone, List.map_singleton, String.join_cons, String.join_nil,
        String.append_empty, Slot.value]
    rw [Builtin.join_switchParts, h.caseSlots_eq hn hget, List.map_map]
    simp only [Function.comp_def]
    rw [List.map_congr_left hbranch]
  · exact (h.caseValue_ne hn hget).imp fun hne heq => hne (Text.quote_injective heq)

/-- **Every live switch of a reachable store dispatches on the values of its
cases**, where the graph validates: in its script there is for each case that the
switch holds a branch under the quoted value of the case, in their order, and
behind these the default. -/
theorem switch_dispatches (aliases : List (String × String)) {store : Store}
    (h : Reachable (Registry.builtin.withAliases aliases) store) (comments : Bool)
    (hvalid : store.graph.validate (Registry.builtin.withAliases aliases) = .ok ()) :
    let registry := Registry.builtin.withAliases aliases
    let setting : Setting := ⟨registry, store.graph.containment, comments⟩
    ∃ script emit pieces, store.graph.compile registry comments = .ok script ∧
      script.Outlined setting emit pieces ∧
      ∀ n ∈ store.graph.nodes, Live registry store.graph.nodes n →
        registry.builtin? n.kind = some .switch →
        ∃ bodies code config cases, .compiled n bodies code ∈ script.visits ∧
          Dispatches setting emit n config cases code := by
  intro registry setting
  have hreg : registry.OnlyBuiltins := Registry.onlyBuiltins_withAliases aliases
  have hnested : Nested registry store.graph.nodes := h.nested hreg
  have hvalidated : Validated setting := Graph.validate_eq_ok_iff.mp hvalid
  have hcompile := Graph.compile_of_validate hvalid comments
  obtain ⟨emit, walk, pieces, hcomplete, houtlined⟩ :=
    Graph.exists_outline hnested hreg hcompile
  refine ⟨_, emit, pieces, hcompile, houtlined, fun n hn hlive hswitch => ?_⟩
  have hget := hreg.builtin?_eq_some_iff.mp hswitch
  -- the switch is live, so its kind was called
  obtain ⟨visit, hvisit, hcalled⟩ := List.mem_filterMap.mp <|
    (hcomplete.called_iff n).mpr ⟨hn, hlive, Option.isSome_of_mem hget⟩
  have hholds := houtlined.holds visit hvisit
  cases visit with
  | skipped => cases hcalled
  | rejected => exact hholds.elim
  | compiled _ bodies code =>
    obtain rfl := Option.some.inj hcalled
    obtain ⟨kind, hkind, rfl, hcode⟩ := hholds
    obtain rfl := Option.some.inj (hkind.symm.trans hget)
    obtain ⟨config, hdispatches⟩ :=
      dispatches hnested hreg hvalidated houtlined.emits hn hget hcode
    exact ⟨_, code, config, _, hvisit, hdispatches⟩

/-- A switch with two cases and a default, the second case first in the
list. -/
def Document.withMenu : Document where
  nodes := [
    ⟨"s", "choice", none, 0, .origin,
      ⟨"Menu", [], .object [("variable", (Operand.reference "mode").toJson)]⟩⟩,
    ⟨"l", "option", some "s-case-off", 1, .origin, ⟨"", [], .object [("value", .string "off")]⟩⟩,
    ⟨"k", "option", some "s-case-it's", 2, .origin,
      ⟨"Own", [], .object [("value", .string "it's")]⟩⟩,
    ⟨"a", "action", some "k", 3, .origin, ⟨"", ["go(); // now"], .null⟩⟩,
    ⟨"d", "action", some "s-default", 4, .origin, ⟨"Else", ["wait();\n"], .null⟩⟩]
  edges := []
  vars := []
  assistants := []

/-- The first case is attached once more, so it comes behind the other one. -/
theorem switch_dispatches_withMenu :
    let registry := Registry.builtin.withAliases [("choice", "switch"), ("option", "case")]
    ∃ store, Reachable registry store ∧ store.graph.validate registry = .ok () ∧
      ∃ script emit pieces, store.graph.compile registry true = .ok script ∧
        script.Outlined ⟨registry, store.graph.containment, true⟩ emit pieces ∧
        script.body = "// Menu\nswitch (mode) \x7b\ncase 'it\\'s':\n// Own\ngo(); // now\n" ++
          "break;\ncase 'off':\nbreak;\ndefault:\n// Else\nwait();\nbreak;\n\x7d\n" ∧
        ∃ n ∈ store.graph.nodes, n.id = "s" ∧ Live registry store.graph.nodes n ∧
          ∃ bodies code config cases, .compiled n bodies code ∈ script.visits ∧
            Dispatches ⟨registry, store.graph.containment, true⟩ emit n config cases code := by
  intro registry
  obtain ⟨result, store, hload, hstore, hvalid, hbody, n, hhead, hid, htop, hkind⟩ :
      ∃ result store, Document.withMenu.load registry ⟨fun _ => 0, 0⟩ = .ok result ∧
        store = (result.store.performAll [.connect "s" "l" (.caseBranch "off")]).2 ∧
        store.graph.validate registry = .ok () ∧
        (Script.generate registry store.graph.containment true).body =
          "// Menu\nswitch (mode) \x7b\ncase 'it\\'s':\n// Own\ngo(); // now\n" ++
            "break;\ncase 'off':\nbreak;\ndefault:\n// Else\nwait();\nbreak;\n\x7d\n" ∧
        ∃ n, store.graph.nodes.head? = some n ∧ n.id = "s" ∧ n.scope = none ∧
          n.kind = "choice" :=
    ⟨_, _, rfl, rfl, rfl, by decide, _, rfl, rfl, rfl, rfl⟩
  have hreach : Reachable registry store := ⟨result.store, _, .loaded hload, hstore⟩
  have hmem := List.mem_of_head? hhead
  have hswitch : registry.builtin? n.kind = some .switch := by
    rw [hkind]
    rfl
  obtain ⟨script, emit, pieces, hcompile, houtlined, hdispatches⟩ :=
    switch_dispatches [("choice", "switch"), ("option", "case")] hreach true hvalid
  obtain ⟨-, rfl⟩ := Graph.compile_eq_ok_iff.mp hcompile
  exact ⟨store, hreach, hvalid, _, emit, pieces, hcompile, houtlined, hbody, n, hmem, hid,
    .of_top htop, hdispatches n hmem (.of_top htop) hswitch⟩

end StepGraph
