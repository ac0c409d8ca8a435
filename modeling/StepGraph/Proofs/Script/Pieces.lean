import StepGraph.Proofs.Script.Complete
import StepGraph.Proofs.Script.Parts

/-!
# Scripts in pieces

The text of a script does not tell which of its lines are comments that the
generator has put in front of a node. The pieces of a script do: every piece is
the comment of a node or a text that a kind has written (`Piece`). Which pieces
the text of a node is made of follows the parts of the node (`outlineStep`), and
an outline that says it of all nodes tells the whole script
(`Script.Outlined`): put together, the pieces of a node are its text, and the
pieces of every node that was visited stand next to each other in the script.
-/

namespace StepGraph

open Generation

/-- **A piece of a script**: the comment in front of the text of a node, or a
text that a kind has written. -/
inductive Piece where
  | comment (n : Node)
  | code (text : String)

namespace Piece

variable {pieces more : List Piece}

/-- The text of a piece. -/
def text : Piece → String
  | comment n => commentLine n.payload.label
  | code text => text

/-- The node whose comment a piece is. -/
def comment? : Piece → Option Node
  | comment n => some n
  | code _ => none

/-- The text that pieces make, one after the other. -/
def textOf (pieces : List Piece) : String :=
  String.join (pieces.map text)

/-- Pieces on lines of their own: a line feed closes them where they need
one. -/
def closed (pieces : List Piece) : List Piece :=
  if block (textOf pieces) = textOf pieces then pieces else pieces ++ [.code "\n"]

@[simp] theorem textOf_nil : textOf [] = "" := rfl

@[simp] theorem textOf_append (pieces more : List Piece) :
    textOf (pieces ++ more) = textOf pieces ++ textOf more := by
  rw [textOf, List.map_append, String.join_append, textOf, textOf]

@[simp] theorem textOf_cons (piece : Piece) (pieces : List Piece) :
    textOf (piece :: pieces) = piece.text ++ textOf pieces := by
  rw [textOf, List.map_cons, String.join_cons, textOf]

theorem textOf_flatMap {α : Type} (items : List α) (f : α → List Piece) :
    textOf (items.flatMap f) = String.join (items.map fun item => textOf (f item)) := by
  induction items with
  | nil => rfl
  | cons item items ih =>
    rw [List.flatMap_cons, textOf_append, ih, List.map_cons, String.join_cons]

/-- **Closed pieces make a block.** -/
theorem textOf_closed (pieces : List Piece) : textOf (closed pieces) = block (textOf pieces) := by
  rw [closed]
  split
  · rename_i hblock
    exact hblock.symm
  · rename_i hblock
    rw [textOf_append, textOf_cons, textOf_nil, String.append_empty]
    rw [block] at hblock ⊢
    split at hblock
    · exact absurd rfl hblock
    · rename_i hopen
      rw [if_neg hopen]
      rfl

/-- Closing adds at most something at the end. -/
theorem within_closed (pieces : List Piece) : pieces <:+: closed pieces := by
  rw [closed]
  split
  · exact List.infix_refl _
  · exact (List.prefix_append _ _).isInfix

/-- The pieces of one item stand next to each other among those of all. -/
theorem within_flatMap {α : Type} {items : List α} {item : α} (h : item ∈ items)
    (f : α → List Piece) : f item <:+: items.flatMap f := by
  rw [List.flatMap_def]
  exact List.infix_of_mem_flatten (List.mem_map_of_mem h)

end Piece

/-- The pieces of a part, from the pieces of the slots. -/
def Part.pieces (bodies : Slot → List Piece) : Part → List Piece
  | written text => [.code text]
  | body slot closed => if closed then Piece.closed (bodies slot) else bodies slot

/-- A part is put together from its pieces as it is filled. -/
theorem Part.textOf_pieces (bodies : Slot → List Piece) (part : Part) :
    Piece.textOf (part.pieces bodies) = part.fill fun slot => Piece.textOf (bodies slot) := by
  cases part with
  | written text =>
    rw [pieces, Piece.textOf_cons, Piece.textOf_nil, String.append_empty]
    rfl
  | body slot closed =>
    rw [pieces, fill]
    split
    · exact Piece.textOf_closed _
    · rfl

namespace Generation

variable {setting : Setting} {emit : Node → Fragment} {pieces : Node → List Piece} {n m : Node}
variable {b : Builtin} {ps : List Part}

/-- The comment in front of a node, where there are comments and the node has a
label. -/
def ownComment (setting : Setting) (n : Node) : List Piece :=
  if setting.comments && !n.payload.label.isEmpty then [.comment n] else []

/-- The pieces of the nodes in a slot, one after the other. -/
def slotPieces (setting : Setting) (pieces : Node → List Piece) (n : Node) (slot : Slot) :
    List Piece :=
  (setting.containment.slotChildren n.id slot).flatMap pieces

/-- The pieces of the text of a node, given those of the nodes in its slots. -/
def outlineStep (setting : Setting) (pieces : Node → List Piece) (n : Node) : List Piece :=
  match setting.registry.builtin? n.kind with
  | none => []
  | some b =>
    match b.parts n setting.containment with
    | .error _ => []
    | .ok ps => ownComment setting n ++ ps.flatMap (Part.pieces (slotPieces setting pieces n))

/-- **An outline** says of every node of which pieces its text is made. -/
def Outlines (setting : Setting) (pieces : Node → List Piece) : Prop :=
  ∀ n ∈ setting.containment.nodes, pieces n = outlineStep setting pieces n

/-- A step looks at the nodes that a node owns. -/
theorem looksInside_outlineStep : LooksInside setting.containment.nodes (outlineStep setting) := by
  intro n _ f g h
  have hslots : slotPieces setting f n = slotPieces setting g n := by
    funext slot
    refine List.flatMap_congr fun m hm => ?_
    obtain ⟨hm, hscope⟩ := Containment.mem_slotChildren.mp hm
    exact h m hm (owner?_of_scope hscope)
  rw [outlineStep, outlineStep, hslots]

/-- The comment is the text that the generator puts in front. -/
theorem textOf_ownComment (setting : Setting) (n : Node) :
    Piece.textOf (ownComment setting n) =
      if setting.comments then commentLine n.payload.label else "" := by
  rw [ownComment]
  cases setting.comments with
  | false => rfl
  | true =>
    cases hlabel : n.payload.label.isEmpty with
    | true => simp [commentLine, hlabel]
    | false => simp [Piece.text]

/-- The pieces of a node of a built-in kind. -/
theorem Outlines.eq (hout : Outlines setting pieces) (hn : n ∈ setting.containment.nodes)
    (hb : setting.registry.builtin? n.kind = some b)
    (hparts : b.parts n setting.containment = .ok ps) :
    pieces n = ownComment setting n ++ ps.flatMap (Part.pieces (slotPieces setting pieces n)) := by
  rw [hout n hn, outlineStep, hb]
  dsimp only
  rw [hparts]

/-- The pieces of the parts, put together, are the parts filled. -/
theorem textOf_parts (ps : List Part) (bodies : Slot → List Piece) :
    Piece.textOf (ps.flatMap (Part.pieces bodies)) =
      String.join (ps.map (Part.fill fun slot => Piece.textOf (bodies slot))) := by
  rw [Piece.textOf_flatMap]
  refine congrArg String.join (List.map_congr_left fun part _ => ?_)
  exact part.textOf_pieces bodies

/-- The pieces of every slot, put together, are its text, where those of its nodes
are theirs. -/
theorem textOf_slotPieces (htext : ∀ m ∈ setting.containment.nodes, m.owner? = some n.id →
      Piece.textOf (pieces m) = (emit m).code) :
    (fun slot => Piece.textOf (slotPieces setting pieces n slot)) = slotCode setting emit n := by
  funext slot
  rw [slotPieces, Piece.textOf_flatMap, slotCode]
  refine congrArg String.join (List.map_congr_left fun m hm => ?_)
  obtain ⟨hm, hscope⟩ := Containment.mem_slotChildren.mp hm
  exact htext m hm (owner?_of_scope hscope)

section Outline

variable (h : Nested setting.registry setting.containment.nodes)
variable (hreg : setting.registry.OnlyBuiltins) (hvalid : Validated setting)

include h hreg hvalid

/-- **The pieces of a node, put together, are its text.** -/
theorem textOf_pieces (hemit : Emits setting emit) (hout : Outlines setting pieces) :
    ∀ n ∈ setting.containment.nodes, Piece.textOf (pieces n) = (emit n).code := by
  refine h.rooted.induction fun n hn ih => ?_
  cases hget : setting.registry.get? n.kind with
  | none =>
    have hnone := hreg.builtin?_eq_none_iff.mpr hget
    rw [hemit.code_eq_empty hn hget, hout n hn, outlineStep, hnone]
    rfl
  | some kind =>
    obtain ⟨b, rfl⟩ := hreg _ _ hget
    obtain ⟨ps, hparts⟩ := Builtin.exists_parts (hvalid n hn _ hget)
    rw [hout.eq hn (Registry.builtin?_of_get? hget) hparts, hemit.code_eq hn hget hparts,
      Piece.textOf_append, textOf_ownComment, textOf_parts, textOf_slotPieces ih]

omit h in
/-- The pieces of what a node holds stand next to each other among its own. -/
theorem pieces_within_owner (hout : Outlines setting pieces)
    (hn : n ∈ setting.containment.nodes)
    (hm : m ∈ declaredChildren setting.registry setting.containment n) :
    pieces m <:+: pieces n := by
  rw [declaredChildren] at hm
  cases hget : setting.registry.get? n.kind with
  | none =>
    rw [hget] at hm
    cases hm
  | some kind =>
    obtain ⟨b, rfl⟩ := hreg _ _ hget
    obtain ⟨ps, hparts⟩ := Builtin.exists_parts (hvalid n hn _ hget)
    rw [hget] at hm
    obtain ⟨slot, hslot, hm⟩ := List.mem_flatMap.mp hm
    -- the part of the slot is made of the pieces of all that is in it
    rw [← Builtin.parts_slots hparts] at hslot
    obtain ⟨part, hpart, hslot⟩ := List.mem_filterMap.mp hslot
    have hbody : slotPieces setting pieces n slot <:+:
        part.pieces (slotPieces setting pieces n) := by
      cases part with
      | written text => cases hslot
      | body slot' closed =>
        obtain rfl : slot' = slot := Option.some.inj hslot
        rw [Part.pieces]
        split
        · exact Piece.within_closed _
        · exact List.infix_refl _
    rw [hout.eq hn (Registry.builtin?_of_get? hget) hparts]
    calc pieces m
      _ <:+: slotPieces setting pieces n slot := Piece.within_flatMap hm _
      _ <:+: part.pieces (slotPieces setting pieces n) := hbody
      _ <:+: ps.flatMap (Part.pieces (slotPieces setting pieces n)) :=
        Piece.within_flatMap hpart _
      _ <:+: ownComment setting n ++ ps.flatMap (Part.pieces (slotPieces setting pieces n)) :=
        (List.suffix_append _ _).isInfix

/-- So do the pieces of all that a walk from the node passes. -/
theorem pieces_within_of_mem_walk (hout : Outlines setting pieces) {walk : Node → List Node}
    (hw : IsWalk setting.registry setting.containment.nodes walk) :
    ∀ n ∈ setting.containment.nodes, ∀ m ∈ walk n, pieces m <:+: pieces n := by
  refine h.rooted.induction fun n hn ih m hm => ?_
  rw [hw n hn, List.mem_append, List.mem_flatMap, List.mem_singleton] at hm
  rcases hm with ⟨child, hchild, hm⟩ | rfl
  · obtain ⟨hmem, hown, -⟩ := (mem_declaredChildren_iff h hreg hn).mp hchild
    exact (ih child hmem hown m hm).trans
      (pieces_within_owner hreg hvalid hout hn hchild)
  · exact List.infix_refl _

end Outline

end Generation

/-- **A script in pieces.** `emit` is what the generator makes of each node, and
`pieces` are the pieces of the text of each node. -/
structure Script.Outlined (setting : Setting) (script : Script) (emit : Node → Fragment)
    (pieces : Node → List Piece) : Prop where
  /-- What the generator makes of a node is made of what it makes of the nodes
  in the declared slots. -/
  emits : Emits setting emit
  /-- The pieces of a node follow its parts. -/
  outlines : Outlines setting pieces
  /-- They make the text of the node. -/
  text : ∀ n ∈ setting.containment.nodes, Piece.textOf (pieces n) = (emit n).code
  /-- Those of the top level make the body. -/
  body : script.body = Piece.textOf (setting.containment.root.flatMap pieces)
  /-- A visited node is skipped for its kind, or compiled with the outputs of its
  slots; none is rejected. -/
  holds : ∀ visit ∈ script.visits, Holds setting emit visit
  /-- The text of a compiled node is what its kind has made, behind its comment. -/
  compiled : ∀ n bodies code, .compiled n bodies code ∈ script.visits →
    ∃ rest, pieces n = ownComment setting n ++ rest ∧ Piece.textOf rest = code
  /-- The text of every visited node has its place in the body. -/
  within : ∀ visit ∈ script.visits,
    pieces visit.node <:+: setting.containment.root.flatMap pieces

namespace Script.Outlined

variable {setting : Setting} {script : Script} {emit : Node → Fragment}
variable {pieces : Node → List Piece} (h : script.Outlined setting emit pieces)
include h

/-- The text of a script, cut between two of its pieces. -/
theorem text_eq {before after : List Piece}
    (hsplit : setting.containment.root.flatMap pieces = before ++ after) :
    script.text =
      Script.preamble ++ Piece.textOf before ++ (Piece.textOf after ++ Script.postamble) := by
  rw [Script.text, h.body, hsplit, Piece.textOf_append]
  simp only [String.append_assoc]

/-- The text of a node of a built-in kind is its comment and, behind it, its
parts, filled with the texts of the slots. -/
theorem code_eq {n : Node} {b : Builtin} {ps : List Part} (hn : n ∈ setting.containment.nodes)
    (hb : setting.registry.builtin? n.kind = some b)
    (hparts : b.parts n setting.containment = .ok ps) :
    (emit n).code = Piece.textOf (ownComment setting n) ++
      String.join (ps.map (Part.fill (slotCode setting emit n))) := by
  rw [← h.text n hn, h.outlines.eq hn hb hparts, Piece.textOf_append, textOf_parts,
    textOf_slotPieces fun m hm _ => h.text m hm]

end Script.Outlined

/-- **A complete script has an outline.** -/
theorem Script.Complete.exists_outline {setting : Setting} {script : Script}
    {emit : Node → Fragment} {walk : Node → List Node}
    (h : script.Complete setting emit walk)
    (hnested : Nested setting.registry setting.containment.nodes)
    (hreg : setting.registry.OnlyBuiltins) (hvalid : Validated setting) :
    ∃ pieces, script.Outlined setting emit pieces := by
  obtain ⟨pieces, hout⟩ : ∃ pieces, Outlines setting pieces :=
    hnested.rooted.exists_solution looksInside_outlineStep
  have htext := textOf_pieces hnested hreg hvalid h.emits hout
  have hroot {n : Node} (hn : n ∈ setting.containment.root) : n ∈ setting.containment.nodes :=
    (Containment.mem_children.mp hn).1
  have hvisited {visit : Visit} (hvisit : visit ∈ script.visits) :
      visit.node ∈ setting.containment.root.flatMap walk := by
    rw [← h.visited]
    exact List.mem_map_of_mem hvisit
  refine ⟨pieces, h.emits, hout, htext, ?_, h.holds, ?_, ?_⟩
  · rw [h.body, Piece.textOf_flatMap]
    exact congrArg String.join (List.map_congr_left fun n hn => (htext n (hroot hn)).symm)
  · intro n bodies code hvisit
    obtain ⟨kind, hget, hbodies, hcode⟩ := h.holds _ hvisit
    obtain ⟨b, rfl⟩ := hreg _ _ hget
    have hn := ((h.walk_iff n).mp (hvisited hvisit)).1
    obtain ⟨ps, hparts⟩ := Builtin.exists_parts (hvalid n hn _ hget)
    refine ⟨_, hout.eq hn (Registry.builtin?_of_get? hget) hparts, ?_⟩
    rw [hbodies, compile_bodiesOf hparts] at hcode
    rw [textOf_parts, textOf_slotPieces fun m hm _ => htext m hm, Except.ok.inj hcode]
  · intro visit hvisit
    obtain ⟨n, hn, hmem⟩ := List.mem_flatMap.mp (hvisited hvisit)
    exact (pieces_within_of_mem_walk hnested hreg hvalid hout h.isWalk n (hroot hn) _ hmem).trans
      (Piece.within_flatMap hn _)

/-- **The script of nested nodes is complete and in pieces.** -/
theorem Graph.exists_outline {g : Graph} {registry : Registry} {comments : Bool} {script : Script}
    (h : Nested registry g.nodes) (hreg : registry.OnlyBuiltins)
    (hcompile : g.compile registry comments = .ok script) :
    ∃ emit walk pieces, script.Complete ⟨registry, g.containment, comments⟩ emit walk ∧
      script.Outlined ⟨registry, g.containment, comments⟩ emit pieces := by
  obtain ⟨hvalid, rfl⟩ := compile_eq_ok_iff.mp hcompile
  let setting : Setting := ⟨registry, g.containment, comments⟩
  have hnested : Nested setting.registry setting.containment.nodes := h
  have hvalidated : Validated setting := validate_eq_ok_iff.mp hvalid
  have hcomplete := generate_complete hnested hreg hvalidated
  obtain ⟨pieces, houtlined⟩ := hcomplete.exists_outline hnested hreg hvalidated
  exact ⟨_, _, pieces, hcomplete, houtlined⟩

end StepGraph
