import StepGraph.Proofs.Script.Pieces
import StepGraph.Proofs.Store.Origin

/-!
# Scripts in whole lines

Where steps run into each other, a comment at the end of one hides the next. The
code of a step is made of whole lines, a script of the user's own among them
(`Step.whole_fragments`), and so is what the kinds write around it. So in a
store where actions come as steps all pieces of a script are texts of whole
lines (`whole_pieces`), and whatever stands in it begins a line
(`typed_in_whole_lines`).
-/

namespace StepGraph

open Generation
open Text (Whole)

/-! ## Steps -/

/-- **The code of a step is in whole lines.** -/
theorem Step.whole_fragments {step : Step} {vars : VariableTable} {assistants : AssistantTable}
    {code : List String} (h : step.fragments vars assistants = .ok code) :
    ∀ text ∈ code, Whole text := by
  have hdeclare (output : Output) (value : String) : Whole (declare output value) :=
    .append_line _ rfl
  cases step with
  | sendText text =>
    obtain ⟨rendered, -, h⟩ := Checks.bind_eq_ok_iff.mp h
    obtain rfl := Checks.pure_eq_ok_iff.mp h
    exact List.forall_mem_singleton.mpr (.append_line _ rfl)
  | sendMedia url caption =>
    obtain ⟨renderedCaption, -, h⟩ := Checks.bind_eq_ok_iff.mp h
    obtain ⟨renderedUrl, -, h⟩ := Checks.bind_eq_ok_iff.mp h
    obtain rfl := Checks.pure_eq_ok_iff.mp h
    exact List.forall_mem_singleton.mpr (.append_line _ rfl)
  | httpRequest method url headers body output =>
    obtain ⟨renderedHeaders, -, h⟩ := Checks.bind_eq_ok_iff.mp h
    obtain ⟨renderedBody, -, h⟩ := Checks.bind_eq_ok_iff.mp h
    obtain ⟨renderedUrl, -, h⟩ := Checks.bind_eq_ok_iff.mp h
    obtain rfl := Checks.pure_eq_ok_iff.mp h
    refine List.forall_mem_cons.mpr ⟨.append_line _ rfl, fun text htext => ?_⟩
    obtain ⟨output, -, rfl⟩ := Option.map_eq_some_iff.mp (Option.mem_toList.mp htext)
    exact hdeclare output _
  | queryAssistant assistant prompt output =>
    rw [fragments] at h
    split at h
    · cases h
    · obtain ⟨renderedPrompt, -, h⟩ := Checks.bind_eq_ok_iff.mp h
      obtain rfl := Checks.pure_eq_ok_iff.mp h
      exact List.forall_mem_cons.mpr
        ⟨.append_line _ rfl, List.forall_mem_singleton.mpr (hdeclare output _)⟩
  | setVariable output value =>
    obtain rfl := Checks.pure_eq_ok_iff.mp (Checks.check_bind_eq_ok_iff.mp h).2
    exact List.forall_mem_singleton.mpr (hdeclare output _)
  | storeValue key value =>
    obtain rfl := Checks.pure_eq_ok_iff.mp (Checks.check_bind_eq_ok_iff.mp h).2
    exact List.forall_mem_singleton.mpr (.append_line _ rfl)
  | loadValue key output =>
    obtain rfl := Except.ok.inj h
    exact List.forall_mem_singleton.mpr (hdeclare output _)
  | wait seconds =>
    obtain rfl := Except.ok.inj h
    exact List.forall_mem_singleton.mpr (.append_line _ rfl)
  | script source =>
    obtain rfl := Except.ok.inj h
    refine List.forall_mem_singleton.mpr ?_
    -- a script of the user's own may lack its last line feed
    split
    · rename_i hlast
      exact .inr hlast
    · exact .append_line source rfl

/-- The code that a step is added with. -/
theorem Edit.whole_of_stepPayload {g : Graph} {step : Step} {payload : Payload}
    (h : stepPayload g step = .ok payload) : ∀ text ∈ payload.code, Whole text := by
  obtain ⟨code, hcode, hpayload⟩ := Checks.bind_eq_ok_iff.mp (payload_of_stepPayload h)
  obtain rfl := Checks.pure_eq_ok_iff.mp hpayload
  exact Step.whole_fragments hcode

/-- An operation that adds an action as a step, if at all. -/
def Operation.IsTyped : Operation → Prop
  | addNode kind _ _ => kind ≠ Builtin.action.tag
  | _ => True

instance : DecidablePred Operation.IsTyped
  | .addNode kind _ _ => inferInstanceAs (Decidable (kind ≠ Builtin.action.tag))
  | .addStep .. | .removeNode .. | .moveNode .. | .connect .. | .reconnect .. | .disconnect ..
  | .registerVariable .. | .registerAssistant .. => .isTrue trivial

/-- **Where actions come as steps, they come in whole lines**, over every run. -/
theorem whole_performAll {store : Store}
    (h : ∀ n ∈ store.graph.nodes, n.kind = Builtin.action.tag →
      ∀ text ∈ n.payload.code, Whole text)
    {operations : List Operation} (htyped : ∀ operation ∈ operations, operation.IsTyped) :
    ∀ n ∈ (store.performAll operations).2.graph.nodes, n.kind = Builtin.action.tag →
      ∀ text ∈ n.payload.code, Whole text := by
  refine content_of_mem_performAll
    (P := fun kind payload => kind = Builtin.action.tag → ∀ text ∈ payload.code, Whole text) h ?_
  intro operation hoperation g kind payload hbrings hkind
  have hoperation := htyped operation hoperation
  rcases hbrings.cases with ⟨scope, rfl⟩ | ⟨step, scope, rfl, -, hpayload⟩
  · exact absurd hkind hoperation
  · exact Edit.whole_of_stepPayload hpayload

/-! ## Kinds -/

namespace Generation

variable {setting : Setting} {emit : Node → Fragment} {pieces : Node → List Piece} {n : Node}

/-- The code of all actions is in whole lines. -/
def WholeActions (setting : Setting) : Prop :=
  ∀ n ∈ setting.containment.nodes, setting.registry.builtin? n.kind = some .action →
    ∀ text ∈ n.payload.code, Whole text

end Generation

/-- **What a kind writes is in whole lines**, where the code of an action is. -/
theorem Builtin.whole_of_written {b : Builtin} {n : Node} {view : Containment} {ps : List Part}
    (h : b.parts n view = .ok ps) (haction : b = .action → ∀ text ∈ n.payload.code, Whole text) :
    ∀ text, .written text ∈ ps → Whole text := by
  intro text htext
  cases b with
  | action =>
    obtain rfl := Except.ok.inj h
    obtain ⟨code, hcode, heq⟩ := List.mem_map.mp htext
    obtain rfl := Part.written.inj heq
    exact haction rfl code hcode
  | conditional =>
    obtain ⟨config, -, hps⟩ := Checks.bind_eq_ok_iff.mp h
    obtain rfl := Checks.pure_eq_ok_iff.mp hps
    simp only [List.mem_cons, Part.written.injEq, List.not_mem_nil, reduceCtorEq, or_false,
      false_or] at htext
    rcases htext with rfl | rfl | rfl
    · exact .append_line _ rfl
    · decide
    · decide
  | switch =>
    obtain ⟨config, -, hps⟩ := Checks.bind_eq_ok_iff.mp h
    obtain rfl := Checks.pure_eq_ok_iff.mp hps
    simp only [switchParts, caseParts, List.cons_append, List.mem_cons, List.mem_append,
      List.mem_flatMap, Part.written.injEq, List.not_mem_nil, reduceCtorEq, or_false,
      false_or] at htext
    rcases htext with rfl | ⟨slot, -, rfl | rfl⟩ | rfl | rfl | rfl
    · exact .append_line _ rfl
    · exact .append_line _ rfl
    all_goals decide
  | caseNode | group =>
    obtain rfl := Except.ok.inj h
    cases List.mem_singleton.mp htext

/-- A part is in whole lines where the slots are. -/
theorem Part.whole_fill {bodies : Slot → String} (hslots : ∀ slot, Whole (bodies slot))
    {part : Part} (hwritten : ∀ text, part = .written text → Whole text) :
    Whole (part.fill bodies) := by
  cases part with
  | written text => exact hwritten text rfl
  | body slot closed =>
    rw [fill, block_eq_of_whole (hslots slot), ite_self]
    exact hslots slot

namespace Piece

variable {pieces : List Piece}

theorem whole_textOf (h : ∀ piece ∈ pieces, Whole piece.text) : Whole (textOf pieces) :=
  .join (List.forall_mem_map.mpr h)

/-- Nothing closes what is in whole lines. -/
theorem closed_eq_of_whole (h : ∀ piece ∈ pieces, Whole piece.text) : closed pieces = pieces := by
  rw [closed, if_pos (block_eq_of_whole (whole_textOf h))]

end Piece

namespace Generation

/-- The comment in front of a node is a line. -/
theorem whole_ownComment : ∀ piece ∈ ownComment setting n, Whole piece.text := by
  intro piece hpiece
  rw [ownComment] at hpiece
  split at hpiece
  · rw [List.mem_singleton.mp hpiece, Piece.text, commentLine]
    split
    · exact .inl rfl
    · exact .append_line _ rfl
  · cases hpiece

/-- **All pieces of all nodes are in whole lines**, where the code of actions
is. -/
theorem whole_pieces (h : Rooted setting.containment.nodes) (hactions : WholeActions setting)
    (hout : Outlines setting pieces) :
    ∀ n ∈ setting.containment.nodes, ∀ piece ∈ pieces n, Whole piece.text := by
  refine h.induction fun n hn ih piece hpiece => ?_
  rw [hout n hn, outlineStep] at hpiece
  split at hpiece
  · cases hpiece
  · rename_i b hb
    split at hpiece
    · cases hpiece
    · rename_i ps hparts
      have hslot (slot : Slot) : ∀ piece ∈ slotPieces setting pieces n slot, Whole piece.text := by
        intro piece hpiece
        obtain ⟨m, hm, hpiece⟩ := List.mem_flatMap.mp hpiece
        obtain ⟨hm, hscope⟩ := Containment.mem_slotChildren.mp hm
        exact ih m hm (owner?_of_scope hscope) piece hpiece
      rcases List.mem_append.mp hpiece with hcomment | hbody
      · exact whole_ownComment piece hcomment
      · obtain ⟨part, hpart, hpiece⟩ := List.mem_flatMap.mp hbody
        cases part with
        | written text =>
          obtain rfl := List.mem_singleton.mp hpiece
          exact Builtin.whole_of_written hparts (fun haction => hactions n hn (haction ▸ hb))
            text hpart
        | body slot closed =>
          rw [Part.pieces, Piece.closed_eq_of_whole (hslot slot), ite_self] at hpiece
          exact hslot slot piece hpiece

end Generation

/-! ## Scripts -/

/-- **A script in whole lines.** `emit` is what the generator makes of each node,
and `pieces` are the pieces of the text of each node. -/
structure Script.InWholeLines (setting : Setting) (script : Script) (emit : Node → Fragment)
    (pieces : Node → List Piece) : Prop where
  /-- The text of every node is empty or ends with a line feed. -/
  nodes : ∀ n ∈ setting.containment.nodes, Whole (emit n).code
  /-- So is that of every slot. -/
  slots : ∀ n ∈ setting.containment.nodes, ∀ slot, Whole (slotCode setting emit n slot)
  /-- Wherever the text of a node stands in the script, it begins a line. -/
  outputs : ∀ before n after, n ∈ setting.containment.nodes →
    setting.containment.root.flatMap pieces = before ++ (pieces n ++ after) →
    let front := Script.preamble ++ Piece.textOf before
    script.text = front ++ ((emit n).code ++ (Piece.textOf after ++ Script.postamble)) ∧
      Whole front
  /-- So does every part of it, in front of a slot, in the slot and behind it. -/
  parts : ∀ before n after, n ∈ setting.containment.nodes →
    setting.containment.root.flatMap pieces = before ++ (pieces n ++ after) →
    ∀ b ps part rest, setting.registry.builtin? n.kind = some b →
      b.parts n setting.containment = .ok (ps ++ part :: rest) →
      let fill := fun part : Part => part.fill (slotCode setting emit n)
      let front := Script.preamble ++ Piece.textOf before ++
        Piece.textOf (ownComment setting n) ++ String.join (ps.map fill)
      script.text = front ++
          (fill part ++ (String.join (rest.map fill) ++ Piece.textOf after ++ Script.postamble)) ∧
        Whole front
  /-- So does the end of the script. -/
  postamble : Whole (Script.preamble ++ script.body)

set_option maxRecDepth 4000 in
theorem Script.whole_preamble : Whole preamble := .ofList rfl

namespace Script.Outlined

variable {setting : Setting} {script : Script} {emit : Node → Fragment}
variable {pieces : Node → List Piece}

/-- Behind pieces that are in whole lines a line begins. -/
theorem whole_before (hpieces : ∀ n ∈ setting.containment.nodes, ∀ piece ∈ pieces n,
      Whole piece.text) {before after : List Piece}
    (hsplit : setting.containment.root.flatMap pieces = before ++ after) :
    Whole (Script.preamble ++ Piece.textOf before) := by
  refine Script.whole_preamble.append (Piece.whole_textOf fun piece hpiece => ?_)
  have hroot := hsplit ▸ List.mem_append_left after hpiece
  obtain ⟨n, hn, hpiece⟩ := List.mem_flatMap.mp hroot
  exact hpieces n (Containment.mem_children.mp hn).1 piece hpiece

/-- **A script where the code of actions is in whole lines.** -/
theorem inWholeLines (h : script.Outlined setting emit pieces)
    (hrooted : Rooted setting.containment.nodes) (hactions : WholeActions setting) :
    script.InWholeLines setting emit pieces := by
  have hpieces := whole_pieces hrooted hactions h.outlines
  have hnodes : ∀ n ∈ setting.containment.nodes, Whole (emit n).code := fun n hn => by
    rw [← h.text n hn]
    exact Piece.whole_textOf (hpieces n hn)
  have hslots (n : Node) (slot : Slot) : Whole (slotCode setting emit n slot) :=
    .join (List.forall_mem_map.mpr fun m hm => hnodes m (Containment.mem_slotChildren.mp hm).1)
  have houtput {before after : List Piece} {n : Node} (hn : n ∈ setting.containment.nodes)
      (hsplit : setting.containment.root.flatMap pieces = before ++ (pieces n ++ after)) :
      script.text = Script.preamble ++ Piece.textOf before ++
        ((emit n).code ++ (Piece.textOf after ++ Script.postamble)) := by
    rw [h.text_eq hsplit, Piece.textOf_append, h.text n hn]
    simp only [String.append_assoc]
  refine ⟨hnodes, fun n _ slot => hslots n slot, fun before n after hn hsplit =>
    ⟨houtput hn hsplit, whole_before hpieces hsplit⟩, ?_, ?_⟩
  · intro before n after hn hsplit b ps part rest hb hparts fill front
    have hcode := h.code_eq hn hb hparts
    have hps : ∀ text ∈ ps.map fill, Whole text := by
      refine List.forall_mem_map.mpr fun part hpart => Part.whole_fill (hslots n) ?_
      rintro text rfl
      exact Builtin.whole_of_written hparts (fun haction => hactions n hn (haction ▸ hb)) text
        (List.mem_append_left _ hpart)
    have hcomment : Whole (Piece.textOf (ownComment setting n)) :=
      Piece.whole_textOf whole_ownComment
    refine ⟨?_, ((whole_before hpieces hsplit).append hcomment).append (.join hps)⟩
    rw [houtput hn hsplit, hcode, List.map_append, List.map_cons, String.join_append,
      String.join_cons]
    simp only [front, String.append_assoc]
    rfl
  · rw [h.body]
    exact whole_before hpieces (List.append_nil _).symm

end Script.Outlined

/-- **Steps do not run into what follows.** In every run from an empty store over
the built-in kinds in which actions come as steps, and for every graph that
compiles, with comments or without: the text of every node and of every slot is
empty or ends with a line feed, and every node, every part of a node and the end
of the script begin a line. -/
theorem typed_in_whole_lines (ids : IdSource) {operations : List Operation}
    (htyped : ∀ operation ∈ operations, operation.IsTyped) {comments : Bool} {script : Script}
    (hcompile : ((Store.empty .builtin ids).performAll operations).2.graph.compile .builtin
      comments = .ok script) :
    let store := ((Store.empty .builtin ids).performAll operations).2
    let setting : Setting := ⟨.builtin, store.graph.containment, comments⟩
    ∃ emit pieces, script.Outlined setting emit pieces ∧
      script.InWholeLines setting emit pieces := by
  intro store setting
  have hreach : Reachable .builtin store := ⟨_, operations, .empty ids, rfl⟩
  have hnested : Nested .builtin store.graph.nodes := hreach.nested Registry.onlyBuiltins_builtin
  obtain ⟨emit, walk, pieces, -, houtlined⟩ :=
    Graph.exists_outline hnested Registry.onlyBuiltins_builtin hcompile
  have hwhole : ∀ n ∈ store.graph.nodes, n.kind = Builtin.action.tag →
      ∀ text ∈ n.payload.code, Whole text := whole_performAll (fun _ hn => (by cases hn)) htyped
  refine ⟨emit, pieces, houtlined, houtlined.inWholeLines hnested.rooted fun n hn hb => ?_⟩
  rw [Registry.builtin?_builtin] at hb
  exact hwhole n hn (Builtin.tag_of_ofTag?_eq_some hb).symm

/-- A step with a comment at its end, on one side of a conditional, and a step
behind it. -/
theorem typed_in_whole_lines_withComment :
    let operations : List Operation := [
      .addNode "conditional" ⟨"Check", [], .object [("comparisons",
        .array [(Comparison.mk (.reference "ready") .isPresent none).toJson])]⟩ none,
      .addStep (.script "go() // now") (some ⟨"node_00000000", .ifBranch⟩),
      .addStep (.wait 2) none]
    let store := ((Store.empty .builtin ⟨Nat.toUInt32, 0⟩).performAll operations).2
    let setting : Setting := ⟨.builtin, store.graph.containment, true⟩
    (∀ operation ∈ operations, operation.IsTyped) ∧
      ∃ script, store.graph.compile .builtin true = .ok script ∧
        script.body = "// Check\nif (!!ready) \x7b\n// Script\ngo() // now\n\x7d else \x7b\n" ++
          "\x7d\n// Wait 2s\nawait clock.sleep(2000);\n" ∧
        ∃ emit pieces, script.Outlined setting emit pieces ∧
          script.InWholeLines setting emit pieces := by
  exact ⟨by decide, _, rfl, by decide, typed_in_whole_lines _ (by decide) rfl⟩

end StepGraph
