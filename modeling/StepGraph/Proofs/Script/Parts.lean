import StepGraph.Proofs.Script.Emission
import StepGraph.Proofs.Text.Lines

/-!
# The parts of a node's text

What a built-in kind writes for a node is a row of parts: texts of its own, and
between them the texts of its slots, where a branch is closed by a line feed
(`Builtin.parts`). The slots stand there in the order in which they are
declared (`parts_slots`), and the row put together is what the kind compiles
(`compile_eq_parts`). So what is to be shown of the text of every node is shown
part by part.
-/

namespace StepGraph

/-- The value in the slot of a case. -/
def Slot.value : Slot → String
  | caseBranch value => value
  | _ => ""

/-- **A part of the text of a node**: a text that the kind writes, or what is in
a slot, as a block of its own where it is closed. -/
inductive Part where
  | written (text : String)
  | body (slot : Slot) (closed : Bool)

namespace Part

/-- The slot whose text a part is. -/
def slot? : Part → Option Slot
  | written _ => none
  | body slot _ => some slot

/-- The text of a part, from the texts of the slots. -/
def fill (bodies : Slot → String) : Part → String
  | written text => text
  | body slot closed => if closed then block (bodies slot) else bodies slot

end Part

/-- A text of whole lines is a block as it is. -/
theorem block_eq_of_whole {text : String} (h : Text.Whole text) : block text = text := by
  rw [block]
  rcases h with hnil | hlast
  · obtain rfl : text = "" := String.ext hnil
    rfl
  · exact if_pos (by rw [Bool.or_eq_true, decide_eq_true_iff]; exact .inr hlast)

/-- Among bodies that are made slot by slot one finds that of each slot. -/
theorem bodyOf_map {slots : List Slot} {text : Slot → String} {slot : Slot} (h : slot ∈ slots) :
    bodyOf (slots.map fun slot => ⟨slot, text slot⟩) slot = text slot := by
  unfold bodyOf
  induction slots with
  | nil => cases h
  | cons first rest ih =>
    rw [List.map_cons, List.find?_cons]
    by_cases hfirst : first = slot
    · subst hfirst
      rw [beq_self_eq_true]
    · rw [beq_false_of_ne hfirst]
      exact ih ((List.mem_cons.mp h).resolve_left (Ne.symm hfirst))

namespace Builtin

variable {n : Node} {view : Containment} {b : Builtin} {ps : List Part}

/-- The branch of a case. -/
def caseParts (slot : Slot) : List Part :=
  [.written ("case " ++ Text.quote slot.value ++ ":\n"), .body slot true, .written "break;\n"]

/-- The parts of a switch with cases in these slots. -/
def switchParts (config : SwitchConfig) (slots : List Slot) : List Part :=
  .written ("switch (" ++ config.operand.render ++ ") \x7b\n") :: slots.flatMap caseParts ++
    [.written "default:\n", .body .defaultBranch true, .written "break;\n", .written "\x7d\n"]

/-- **The parts of what a kind writes for a node.** -/
def parts (n : Node) (view : Containment) : Builtin → Except ConfigurationError (List Part)
  | action => .ok (n.payload.code.map .written)
  | conditional => do
    let config ← n.config ConditionalConfig.decode
    return [.written ("if (" ++ renderCondition config.comparisons config.connectors ++ ") \x7b\n"),
      .body .ifBranch true, .written "\x7d else \x7b\n", .body .elseBranch true, .written "\x7d\n"]
  | switch => do
    let config ← n.config SwitchConfig.decode
    return switchParts config (view.caseSlots n.id)
  | caseNode => .ok [.body .body false]
  | group => .ok [.body .body false]

/-- **The slots stand in the text in the order in which they are declared.** -/
theorem parts_slots (h : b.parts n view = .ok ps) :
    ps.filterMap Part.slot? = b.kind.declaredSlots n view := by
  cases b with
  | action =>
    obtain rfl := Except.ok.inj h
    rw [List.filterMap_map]
    exact List.filterMap_eq_nil_iff.mpr fun _ _ => rfl
  | conditional =>
    obtain ⟨config, -, hps⟩ := Checks.bind_eq_ok_iff.mp h
    obtain rfl := Except.ok.inj hps
    rfl
  | switch =>
    obtain ⟨config, -, hps⟩ := Checks.bind_eq_ok_iff.mp h
    obtain rfl := Except.ok.inj hps
    have hcases (slots : List Slot) : (slots.flatMap caseParts).filterMap Part.slot? = slots := by
      rw [List.filterMap_flatMap]
      exact List.flatMap_singleton' slots
    rw [switchParts, List.cons_append, List.filterMap_cons, List.filterMap_append, hcases]
    rfl
  | caseNode | group =>
    obtain rfl := Except.ok.inj h
    rfl

/-- The texts of the cases of a switch, the default apart. -/
theorem join_caseText {slots : List Slot} {body : Slot → String}
    (hcase : ∀ slot ∈ slots, ∃ value, slot = .caseBranch value) :
    String.join (((slots ++ [Slot.defaultBranch]).map fun slot =>
        (⟨slot, body slot⟩ : SlotBody)).map caseText) =
      String.join (slots.map fun slot =>
        "case " ++ Text.quote slot.value ++ ":\n" ++ block (body slot) ++ "break;\n") := by
  have hdefault : caseText ⟨.defaultBranch, body .defaultBranch⟩ = "" := rfl
  rw [List.map_append, List.map_append, String.join_append, List.map_map, List.map_singleton,
    List.map_singleton, hdefault, String.join_cons, String.join_nil, String.append_empty,
    String.append_empty]
  congr 1
  refine List.map_congr_left fun slot hslot => ?_
  obtain ⟨value, rfl⟩ := hcase slot hslot
  rfl

/-- The parts of the cases, put together. -/
theorem join_caseParts (slots : List Slot) (body : Slot → String) :
    String.join ((slots.flatMap caseParts).map (Part.fill body)) =
      String.join (slots.map fun slot =>
        "case " ++ Text.quote slot.value ++ ":\n" ++ block (body slot) ++ "break;\n") := by
  induction slots with
  | nil => rfl
  | cons slot slots ih =>
    rw [List.flatMap_cons, List.map_append, String.join_append, ih, List.map_cons,
      String.join_cons]
    simp [caseParts, Part.fill, String.append_assoc]

/-- **The parts of a switch, put together.** -/
theorem join_switchParts (config : SwitchConfig) (slots : List Slot) (body : Slot → String) :
    String.join ((switchParts config slots).map (Part.fill body)) =
      "switch (" ++ config.operand.render ++ ") \x7b\n" ++
        String.join (slots.map fun slot =>
          "case " ++ Text.quote slot.value ++ ":\n" ++ block (body slot) ++ "break;\n") ++
        "default:\n" ++ block (body .defaultBranch) ++ "break;\n\x7d\n" := by
  have hend : "break;\n\x7d\n" = "break;\n" ++ "\x7d\n" := by decide
  rw [switchParts, List.map_append, List.map_cons, String.join_append, String.join_cons,
    join_caseParts, hend]
  simp only [List.map_cons, List.map_nil, String.join_cons, String.join_nil, Part.fill, if_true,
    String.append_empty, String.append_assoc]

/-- **What a kind compiles are its parts, put together**: from the bodies of the
declared slots it makes this text, and it refuses where the parts do. -/
theorem compile_eq_parts (b : Builtin) (n : Node) (view : Containment) (text : Slot → String) :
    b.kind.compile n ((b.kind.declaredSlots n view).map fun slot => ⟨slot, text slot⟩) =
      (b.parts n view).map fun ps => String.join (ps.map (Part.fill text)) := by
  cases b with
  | action =>
    have hfill : n.payload.code.map (Part.fill text ∘ Part.written) = n.payload.code :=
      List.map_id _
    rw [parts, Except.map, List.map_map, hfill]
    rfl
  | conditional =>
    change compileConditional n _ = _
    rw [compileConditional, parts]
    cases n.config ConditionalConfig.decode with
    | error error => rfl
    | ok config =>
      refine congrArg Except.ok ?_
      have hif : bodyOf ((conditional.kind.declaredSlots n view).map fun slot =>
          ⟨slot, text slot⟩) .ifBranch = text .ifBranch := bodyOf_map (.head _)
      have helse : bodyOf ((conditional.kind.declaredSlots n view).map fun slot =>
          ⟨slot, text slot⟩) .elseBranch = text .elseBranch := bodyOf_map (.tail _ (.head _))
      rw [hif, helse]
      simp only [List.map_cons, List.map_nil, String.join_cons, String.join_nil, Part.fill,
        if_true, String.append_empty, String.append_assoc]
  | switch =>
    have hdeclared : switch.kind.declaredSlots n view = view.caseSlots n.id ++ [.defaultBranch] :=
      rfl
    rw [hdeclared]
    change compileSwitch n _ = _
    rw [compileSwitch, parts]
    cases n.config SwitchConfig.decode with
    | error error => rfl
    | ok config =>
      refine congrArg Except.ok ?_
      have hdefault : bodyOf ((view.caseSlots n.id ++ [Slot.defaultBranch]).map fun slot =>
          ⟨slot, text slot⟩) .defaultBranch = text .defaultBranch :=
        bodyOf_map (List.mem_append_right _ (.head _))
      have hcase : ∀ slot ∈ view.caseSlots n.id, ∃ value, slot = .caseBranch value :=
        fun slot hslot => (Containment.mem_caseSlots.mp hslot).imp fun _ => And.left
      rw [hdefault, join_caseText hcase]
      exact (join_switchParts config _ text).symm
  | caseNode | group =>
    -- a case and a group hand on what is in their body
    rw [parts, Except.map, List.map_singleton, String.join_cons, String.join_nil,
      String.append_empty]
    exact congrArg Except.ok (bodyOf_map (.head _))

/-- What validates has parts. -/
theorem exists_parts (h : b.kind.validate n view = .ok ()) : ∃ ps, b.parts n view = .ok ps := by
  obtain ⟨code, hcode⟩ := compile_isOk_of_validate h
    ((b.kind.declaredSlots n view).map fun slot => ⟨slot, ""⟩)
  rw [compile_eq_parts b n view fun _ => ""] at hcode
  cases hparts : b.parts n view with
  | ok ps => exact ⟨ps, rfl⟩
  | error error =>
    rw [hparts] at hcode
    cases hcode

end Builtin

namespace Generation

variable {setting : Setting} {emit : Node → Fragment} {n : Node} {b : Builtin} {ps : List Part}

/-- What a kind makes of a node are its parts, filled with the texts of the
slots. -/
theorem compile_bodiesOf (hparts : b.parts n setting.containment = .ok ps) :
    b.kind.compile n (bodiesOf setting emit b.kind n) =
      .ok (String.join (ps.map (Part.fill (slotCode setting emit n)))) := by
  rw [bodiesOf, Builtin.compile_eq_parts, hparts]
  rfl

/-- **The text of a node** is its comment and, behind it, its parts, filled with
the texts of the slots. -/
theorem Emits.code_eq (hemit : Emits setting emit) (hn : n ∈ setting.containment.nodes)
    (hget : setting.registry.get? n.kind = some b.kind)
    (hparts : b.parts n setting.containment = .ok ps) :
    (emit n).code = (if setting.comments then commentLine n.payload.label else "") ++
      String.join (ps.map (Part.fill (slotCode setting emit n))) := by
  rw [hemit n hn, emitStep_eq hget (compile_bodiesOf hparts)]

/-- A node of an unregistered kind has no text. -/
theorem Emits.code_eq_empty (hemit : Emits setting emit) (hn : n ∈ setting.containment.nodes)
    (hget : setting.registry.get? n.kind = none) : (emit n).code = "" := by
  rw [hemit n hn, emitStep, hget]

end Generation

end StepGraph
