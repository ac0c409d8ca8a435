import StepGraph.Proofs.Script.Pieces

/-!
# Comments add nothing but comments

A script that is compiled with comments is the script without them, apart from
comments and line feeds. In front of the text of every compiled node that has a
label stands its comment, and there are no other comments
(`mem_comments_iff`). Without its comments a node has the text that it has in the
script without comments, up to line feeds (`withoutFeeds_bare`): a comment can
only make a branch that was empty, or that a line feed had to close, end with a
line feed of its own.
-/

namespace StepGraph

open Generation

/-! ## Texts without line feeds -/

/-- A text without its line feeds. -/
def Text.withoutFeeds (text : String) : String :=
  String.ofList (text.toList.filter (· ≠ '\n'))

namespace Text

theorem withoutFeeds_append (text more : String) :
    withoutFeeds (text ++ more) = withoutFeeds text ++ withoutFeeds more := by
  rw [withoutFeeds, String.toList_append, List.filter_append, String.ofList_append]
  rfl

theorem withoutFeeds_join (texts : List String) :
    withoutFeeds (String.join texts) = String.join (texts.map withoutFeeds) := by
  induction texts with
  | nil => rfl
  | cons text texts ih =>
    rw [String.join_cons, withoutFeeds_append, ih, List.map_cons, String.join_cons]

/-- Closing a block adds at most a line feed. -/
theorem withoutFeeds_block (text : String) : withoutFeeds (block text) = withoutFeeds text := by
  rw [block]
  split
  · rfl
  · rw [withoutFeeds_append]
    exact String.append_empty

end Text

/-! ## Pieces without comments -/

namespace Piece

variable {pieces : List Piece}

/-- The comments among pieces, told by their nodes. -/
def comments (pieces : List Piece) : List Node :=
  pieces.filterMap comment?

/-- **The text of pieces without the comments.** -/
def bare (pieces : List Piece) : String :=
  textOf (pieces.filter fun piece => piece.comment?.isNone)

theorem mem_comments_iff {n : Node} : n ∈ comments pieces ↔ .comment n ∈ pieces := by
  rw [comments, List.mem_filterMap]
  constructor
  · rintro ⟨piece, hpiece, hnode⟩
    cases piece with
    | comment m => exact Option.some.inj hnode ▸ hpiece
    | code text => cases hnode
  · exact fun hpiece => ⟨_, hpiece, rfl⟩

theorem comments_append (pieces more : List Piece) :
    comments (pieces ++ more) = comments pieces ++ comments more :=
  List.filterMap_append

theorem comments_flatMap {α : Type} (items : List α) (f : α → List Piece) :
    comments (items.flatMap f) = items.flatMap fun item => comments (f item) :=
  List.filterMap_flatMap

/-- Closing adds no comment. -/
theorem comments_closed (pieces : List Piece) : comments (closed pieces) = comments pieces := by
  rw [closed]
  split
  · rfl
  · rw [comments_append]
    exact List.append_nil _

theorem bare_append (pieces more : List Piece) :
    bare (pieces ++ more) = bare pieces ++ bare more := by
  rw [bare, List.filter_append, textOf_append]
  rfl

theorem bare_flatMap {α : Type} (items : List α) (f : α → List Piece) :
    bare (items.flatMap f) = String.join (items.map fun item => bare (f item)) := by
  rw [bare, List.filter_flatMap, textOf_flatMap]
  rfl

/-- Closing adds at most a line feed. -/
theorem withoutFeeds_bare_closed (pieces : List Piece) :
    Text.withoutFeeds (bare (closed pieces)) = Text.withoutFeeds (bare pieces) := by
  rw [closed]
  split
  · rfl
  · rw [bare_append, Text.withoutFeeds_append]
    exact String.append_empty

end Piece

namespace Generation

variable {setting : Setting} {emit : Node → Fragment} {pieces : Node → List Piece} {n m : Node}
variable {walk : Node → List Node}

/-- The comments of parts are those of their slots. -/
theorem comments_parts (ps : List Part) (bodies : Slot → List Piece) :
    Piece.comments (ps.flatMap (Part.pieces bodies)) =
      (ps.filterMap Part.slot?).flatMap fun slot => Piece.comments (bodies slot) := by
  induction ps with
  | nil => rfl
  | cons part ps ih =>
    rw [List.flatMap_cons, Piece.comments_append, ih]
    cases part with
    | written text => rfl
    | body slot closed =>
      have hbody : Piece.comments ((Part.body slot closed).pieces bodies) =
          Piece.comments (bodies slot) := by
        rw [Part.pieces]
        split
        · exact Piece.comments_closed _
        · rfl
      rw [hbody, List.filterMap_cons]
      rfl

/-- A part without its comments is the part filled with texts without them, up to
line feeds. -/
theorem withoutFeeds_bare_part {bodies : Slot → List Piece} {texts : Slot → String}
    (h : ∀ slot, Text.withoutFeeds (Piece.bare (bodies slot)) = Text.withoutFeeds (texts slot))
    (part : Part) :
    Text.withoutFeeds (Piece.bare (part.pieces bodies)) =
      Text.withoutFeeds (part.fill texts) := by
  cases part with
  | written text =>
    have hbare : Piece.bare [.code text] = text :=
      (Piece.textOf_cons _ _).trans String.append_empty
    exact congrArg Text.withoutFeeds hbare
  | body slot closed =>
    cases closed with
    | false => exact h slot
    | true =>
      change Text.withoutFeeds (Piece.bare (Piece.closed (bodies slot))) =
        Text.withoutFeeds (block (texts slot))
      rw [Piece.withoutFeeds_bare_closed, Text.withoutFeeds_block, h]

/-- Whether the text of a node has a comment in front. -/
def hasComment (setting : Setting) (n : Node) : Bool :=
  setting.comments && !n.payload.label.isEmpty && (setting.registry.get? n.kind).isSome

/-- The same setting without comments. -/
def Setting.plain (setting : Setting) : Setting :=
  { setting with comments := false }

section Comments

variable (h : Nested setting.registry setting.containment.nodes)
variable (hreg : setting.registry.OnlyBuiltins) (hvalid : Validated setting)
variable (hout : Outlines setting pieces)

include h hreg hvalid hout

omit h in
/-- **The comments of a node** are its own and those of the nodes in its
slots. -/
theorem comments_pieces (hn : n ∈ setting.containment.nodes) :
    Piece.comments (pieces n) = [n].filter (hasComment setting) ++
      (declaredChildren setting.registry setting.containment n).flatMap
        fun m => Piece.comments (pieces m) := by
  cases hget : setting.registry.get? n.kind with
  | none =>
    have hnone := hreg.builtin?_eq_none_iff.mpr hget
    rw [hout n hn, outlineStep, hnone, declaredChildren, hget]
    simp [hasComment, hget, Piece.comments]
  | some kind =>
    obtain ⟨b, rfl⟩ := hreg _ _ hget
    obtain ⟨ps, hparts⟩ := Builtin.exists_parts (hvalid n hn _ hget)
    have hown : Piece.comments (ownComment setting n) = [n].filter (hasComment setting) := by
      rw [ownComment, List.filter_singleton, hasComment, hget]
      cases setting.comments && !n.payload.label.isEmpty <;> rfl
    have hslots (slot : Slot) : Piece.comments (slotPieces setting pieces n slot) =
        (setting.containment.slotChildren n.id slot).flatMap
          fun m => Piece.comments (pieces m) := Piece.comments_flatMap _ _
    rw [hout.eq hn (Registry.builtin?_of_get? hget) hparts, Piece.comments_append, hown,
      comments_parts, Builtin.parts_slots hparts, declaredChildren, hget]
    simp only [hslots, List.flatMap_assoc]

/-- The comments of a node are those of the nodes that a walk from it passes. -/
theorem comments_perm_walk
    (hw : IsWalk setting.registry setting.containment.nodes walk) :
    ∀ n ∈ setting.containment.nodes,
      (Piece.comments (pieces n)).Perm ((walk n).filter (hasComment setting)) := by
  refine h.rooted.induction fun n hn ih => ?_
  rw [comments_pieces hreg hvalid hout hn, hw n hn, List.filter_append, List.filter_flatMap]
  refine List.perm_append_comm.trans (List.Perm.append_right _ (List.Perm.flatMap_left _ ?_))
  intro m hm
  obtain ⟨hmem, hown, -⟩ := (mem_declaredChildren_iff h hreg hn).mp hm
  exact ih m hmem hown

/-- **Without its comments a node has the text that it has in the script without
comments**, up to line feeds. -/
theorem withoutFeeds_bare {plain : Node → Fragment} (hplain : Emits setting.plain plain) :
    ∀ n ∈ setting.containment.nodes,
      Text.withoutFeeds (Piece.bare (pieces n)) = Text.withoutFeeds (plain n).code := by
  refine h.rooted.induction fun n hn ih => ?_
  cases hget : setting.registry.get? n.kind with
  | none =>
    have hnone := hreg.builtin?_eq_none_iff.mpr hget
    rw [hplain.code_eq_empty hn hget, hout n hn, outlineStep, hnone]
    rfl
  | some kind =>
    obtain ⟨b, rfl⟩ := hreg _ _ hget
    obtain ⟨ps, hparts⟩ := Builtin.exists_parts (hvalid n hn _ hget)
    have hslots (slot : Slot) :
        Text.withoutFeeds (Piece.bare (slotPieces setting pieces n slot)) =
          Text.withoutFeeds (slotCode setting.plain plain n slot) := by
      rw [slotPieces, Piece.bare_flatMap, slotCode, Text.withoutFeeds_join, Text.withoutFeeds_join,
        List.map_map, List.map_map]
      refine congrArg String.join (List.map_congr_left fun m hm => ?_)
      obtain ⟨hm, hscope⟩ := Containment.mem_slotChildren.mp hm
      exact ih m hm (owner?_of_scope hscope)
    have hown : Piece.bare (ownComment setting n) = "" := by
      rw [ownComment]
      split <;> rfl
    have hcode := hplain.code_eq hn hget hparts
    rw [hout.eq hn (Registry.builtin?_of_get? hget) hparts, Piece.bare_append, hown,
      String.empty_append, Piece.bare_flatMap, hcode, Text.withoutFeeds_join,
      Text.withoutFeeds_append, Text.withoutFeeds_join, List.map_map, List.map_map]
    refine Eq.trans ?_ String.empty_append.symm
    exact congrArg String.join
      (List.map_congr_left fun part _ => withoutFeeds_bare_part hslots part)

end Comments

end Generation

/-! ## Scripts -/

section Script

variable {setting : Setting} {script plain : Script} {emit : Node → Fragment}
variable {walk : Node → List Node} {pieces : Node → List Piece}

/-- The comments of a script are those of the nodes that it passes. -/
theorem Script.Complete.comments_perm (hcomplete : script.Complete setting emit walk)
    (houtlined : script.Outlined setting emit pieces)
    (h : Nested setting.registry setting.containment.nodes)
    (hreg : setting.registry.OnlyBuiltins) (hvalid : Validated setting) :
    (Piece.comments (setting.containment.root.flatMap pieces)).Perm
      ((script.visits.map Visit.node).filter (hasComment setting)) := by
  rw [Piece.comments_flatMap, hcomplete.visited, List.filter_flatMap]
  refine List.Perm.flatMap_left _ fun n hn => ?_
  exact comments_perm_walk h hreg hvalid houtlined.outlines hcomplete.isWalk n
    (Containment.mem_children.mp hn).1

/-- **A script that adds its comments and nothing else.** -/
structure Script.AddsComments (setting : Setting) (script plain : Script)
    (pieces : Node → List Piece) : Prop where
  /-- No node has two comments. -/
  nodup : (Piece.comments (setting.containment.root.flatMap pieces)).Nodup
  /-- The compiled nodes that have a label have one, and no others. -/
  mem_iff : ∀ n, n ∈ Piece.comments (setting.containment.root.flatMap pieces) ↔
    n.payload.label ≠ "" ∧ ∃ bodies code, .compiled n bodies code ∈ script.visits
  /-- Without the comments and without line feeds the texts are the same. -/
  bare : Text.withoutFeeds (Piece.bare (setting.containment.root.flatMap pieces)) =
    Text.withoutFeeds plain.body
  /-- The diagnostics are the same. -/
  diagnostics : script.diagnostics = plain.diagnostics

/-- A node is compiled when its kind is registered and it is visited. -/
theorem Script.Complete.exists_compiled_iff (h : script.Complete setting emit walk) {n : Node} :
    (∃ bodies code, .compiled n bodies code ∈ script.visits) ↔
      n ∈ script.visits.map Visit.node ∧ (setting.registry.get? n.kind).isSome = true := by
  constructor
  · rintro ⟨bodies, code, hvisit⟩
    obtain ⟨kind, hget, -⟩ := h.holds _ hvisit
    exact ⟨List.mem_map_of_mem (f := Visit.node) hvisit, Option.isSome_of_mem hget⟩
  · rintro ⟨hmem, hbound⟩
    obtain ⟨visit, hvisit, rfl⟩ := List.mem_map.mp hmem
    have hholds := h.holds visit hvisit
    cases visit with
    | skipped n =>
      have hnone : setting.registry.get? n.kind = none := hholds
      rw [Visit.node, hnone] at hbound
      cases hbound
    | rejected => exact hholds.elim
    | compiled n bodies code => exact ⟨bodies, code, hvisit⟩

/-- **The compiled nodes that have a label have a comment**, where there are
comments, and no others. -/
theorem Script.Complete.mem_comments_iff (hcomplete : script.Complete setting emit walk)
    (houtlined : script.Outlined setting emit pieces)
    (h : Nested setting.registry setting.containment.nodes)
    (hreg : setting.registry.OnlyBuiltins) (hvalid : Validated setting)
    (hcomments : setting.comments = true) {n : Node} :
    n ∈ Piece.comments (setting.containment.root.flatMap pieces) ↔
      n.payload.label ≠ "" ∧ ∃ bodies code, .compiled n bodies code ∈ script.visits := by
  have hperm := hcomplete.comments_perm houtlined h hreg hvalid
  have hlabel : (!n.payload.label.isEmpty) = true ↔ n.payload.label ≠ "" := by simp
  rw [hperm.mem_iff, List.mem_filter, hasComment, hcomments, Bool.true_and, Bool.and_eq_true,
    hlabel, hcomplete.exists_compiled_iff]
  exact and_left_comm

/-- **Two complete scripts of one containment**, one with comments and one
without: the first adds its comments and nothing else. -/
theorem Script.Complete.addsComments {emit' : Node → Fragment} {walk' : Node → List Node}
    (hcomplete : script.Complete setting emit walk)
    (houtlined : script.Outlined setting emit pieces)
    (hplain : plain.Complete setting.plain emit' walk')
    (h : Nested setting.registry setting.containment.nodes)
    (hreg : setting.registry.OnlyBuiltins) (hvalid : Validated setting)
    (hcomments : setting.comments = true) :
    script.AddsComments setting plain pieces := by
  have hroot {n : Node} (hn : n ∈ setting.containment.root) : n ∈ setting.containment.nodes :=
    (Containment.mem_children.mp hn).1
  refine ⟨?_, fun n => hcomplete.mem_comments_iff houtlined h hreg hvalid hcomments, ?_, ?_⟩
  · rw [(hcomplete.comments_perm houtlined h hreg hvalid).nodup_iff, hcomplete.visited]
    exact hcomplete.walk_nodup.filter _
  · rw [hplain.body, Piece.bare_flatMap, Text.withoutFeeds_join, Text.withoutFeeds_join,
      List.map_map, List.map_map]
    refine congrArg String.join (List.map_congr_left fun n hn => ?_)
    exact withoutFeeds_bare h hreg hvalid houtlined.outlines hplain.emits n (hroot hn)
  · have hwalk : setting.containment.root.flatMap walk = setting.containment.root.flatMap walk' :=
      List.flatMap_congr fun n hn => hcomplete.isWalk.unique h hreg hplain.isWalk n (hroot hn)
    rw [hcomplete.diagnostics, hplain.diagnostics, hwalk]
    rfl

end Script

/-- **Comments add nothing but comments.** Whether a graph of a reachable store
compiles does not depend on them, nor does the report that it does not; and of
the two scripts that it compiles to, the one with comments has in front of the
text of each compiled node with a label the comment of this node, has no other
comments, and without them differs from the other script in line feeds at
most. -/
theorem comments_add_comments (aliases : List (String × String)) {store : Store}
    (h : Reachable (Registry.builtin.withAliases aliases) store) :
    let registry := Registry.builtin.withAliases aliases
    let setting : Setting := ⟨registry, store.graph.containment, true⟩
    (∃ report, store.graph.compile registry true = .error report ∧
      store.graph.compile registry false = .error report) ∨
    ∃ script plain emit pieces, store.graph.compile registry true = .ok script ∧
      store.graph.compile registry false = .ok plain ∧
      script.Outlined setting emit pieces ∧ script.AddsComments setting plain pieces := by
  intro registry setting
  have hreg : registry.OnlyBuiltins := Registry.onlyBuiltins_withAliases aliases
  have hnested : Nested registry store.graph.nodes := h.nested hreg
  cases hvalid : store.graph.validate registry with
  | error report =>
    exact .inl ⟨report, by rw [Graph.compile, hvalid], by rw [Graph.compile, hvalid]⟩
  | ok =>
    have hcompile := Graph.compile_of_validate hvalid
    obtain ⟨emit, walk, pieces, hcomplete, houtlined⟩ :=
      Graph.exists_outline hnested hreg (hcompile true)
    obtain ⟨emit', walk', -, hplain, -⟩ :=
      Graph.exists_outline hnested hreg (hcompile false)
    exact .inr ⟨_, _, emit, pieces, hcompile true, hcompile false, houtlined,
      hcomplete.addsComments houtlined hplain hnested hreg
        (Graph.validate_eq_ok_iff.mp hvalid) rfl⟩

/-- A conditional with an empty group on one side and two steps on the other, and
a node of an unregistered kind. -/
def Document.withNotes : Document where
  nodes := [
    ⟨"c", "conditional", none, 0, .origin, ⟨"Check", [], .object [("comparisons",
      .array [(Comparison.mk (.reference "ready") .isPresent none).toJson])]⟩⟩,
    ⟨"g", "group", some "c-if", 1, .origin, ⟨"Nothing", [], .null⟩⟩,
    ⟨"a", "step", some "c-else", 2, .origin, ⟨"First\none", ["first()"], .null⟩⟩,
    ⟨"b", "step", some "c-else", 3, .origin, ⟨"Second", ["second()"], .null⟩⟩,
    ⟨"w", "widget", none, 4, .origin, ⟨"Third", [], .null⟩⟩]
  edges := []
  vars := []
  assistants := []

/-- A comment makes an empty branch end with a line feed, and stands behind code
that has none. -/
theorem comments_add_comments_withNotes :
    let registry := Registry.builtin.withAliases [("step", "action")]
    ∃ store, Reachable registry store ∧
      ∃ script plain emit pieces, store.graph.compile registry true = .ok script ∧
        store.graph.compile registry false = .ok plain ∧
        script.body = "// Check\nif (!!ready) \x7b\n// Nothing\n\x7d else \x7b\n" ++
          "// First one\nfirst()// Second\nsecond()\n\x7d\n" ∧
        plain.body = "if (!!ready) \x7b\n\x7d else \x7b\nfirst()second()\n\x7d\n" ∧
        script.Outlined ⟨registry, store.graph.containment, true⟩ emit pieces ∧
        script.AddsComments ⟨registry, store.graph.containment, true⟩ plain pieces := by
  intro registry
  obtain ⟨result, hload, hvalid, hbody, hplain⟩ :
      ∃ result, Document.withNotes.load registry ⟨fun _ => 0, 0⟩ = .ok result ∧
        result.store.graph.validate registry = .ok () ∧
        (Script.generate registry result.store.graph.containment true).body =
          "// Check\nif (!!ready) \x7b\n// Nothing\n\x7d else \x7b\n" ++
            "// First one\nfirst()// Second\nsecond()\n\x7d\n" ∧
        (Script.generate registry result.store.graph.containment false).body =
          "if (!!ready) \x7b\n\x7d else \x7b\nfirst()second()\n\x7d\n" :=
    ⟨_, rfl, rfl, by decide, by decide⟩
  have hreach : Reachable registry result.store := ⟨result.store, [], .loaded hload, rfl⟩
  rcases comments_add_comments [("step", "action")] hreach with
    ⟨report, hfailed, -⟩ | ⟨script, plain, emit, pieces, hscript, hwithout, houtlined, hadds⟩
  · cases hfailed.symm.trans (Graph.compile_of_validate hvalid true)
  · obtain ⟨-, rfl⟩ := Graph.compile_eq_ok_iff.mp hscript
    obtain ⟨-, rfl⟩ := Graph.compile_eq_ok_iff.mp hwithout
    exact ⟨_, hreach, _, _, emit, pieces, hscript, hwithout, hbody, hplain, houtlined, hadds⟩

end StepGraph
