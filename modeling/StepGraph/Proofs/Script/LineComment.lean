import StepGraph.Proofs.Script.Commented

/-!
# Where a comment ends

A comment that begins with two slashes ends with its line, and a line of a
script ends at a line feed, a carriage return, a line separator or a paragraph
separator. The generator writes spaces for the first two. So the comment of a
node reaches the line feed that was written behind its label where no separator
is in the label, and only there (`comment_reaches_end_iff`): with a separator
the rest of the label is code.
-/

namespace StepGraph

open Generation

namespace Script

/-- The separators of lines and of paragraphs. -/
def isSeparator (c : Char) : Bool :=
  c == '\u2028' || c == '\u2029'

/-- **The characters that end a line of a script.** -/
def endsLine (c : Char) : Bool :=
  c == '\n' || c == '\r' || isSeparator c

/-- **The comment that a text begins with**, without the slashes, and what
follows it. The comment goes on up to the first character that ends a line. -/
def lineComment? : List Char → Option (List Char × List Char)
  | '/' :: '/' :: rest => some (rest.takeWhile (!endsLine ·), rest.dropWhile (!endsLine ·))
  | _ => none

example : lineComment? "// a\rb".toList = some (" a".toList, "\rb".toList) ∧
    lineComment? "a // b".toList = none := by decide

/-- What a label is written as ends a line where a separator is in the label. -/
theorem endsLine_commentChar (c : Char) : endsLine (commentChar c) = isSeparator c := by
  rw [commentChar]
  split
  · rename_i hfeed
    rcases hfeed with rfl | rfl <;> decide
  · rename_i hplain
    obtain ⟨hfeed, hreturn⟩ := not_or.mp hplain
    rw [endsLine, beq_false_of_ne hfeed, beq_false_of_ne hreturn]
    rfl

/-- Up to a character that ends a line, and from it on. -/
theorem lineComment?_append {line behind : List Char} {c : Char} (hc : endsLine c = true) :
    lineComment? ('/' :: '/' :: (line ++ c :: behind)) =
      some (line.takeWhile (!endsLine ·), line.dropWhile (!endsLine ·) ++ c :: behind) := by
  rw [lineComment?]
  induction line with
  | nil => simp [hc]
  | cons d line ih =>
    obtain ⟨htake, hdrop⟩ := Prod.mk.inj (Option.some.inj ih)
    rw [List.cons_append, List.takeWhile_cons, List.dropWhile_cons, List.takeWhile_cons,
      List.dropWhile_cons]
    split
    · rw [htake, hdrop]
    · rfl

/-- **The comment of a label** goes on up to the first separator in the label;
what follows it there is left. -/
theorem lineComment?_commentLine {label : String} (h : label ≠ "") (behind : List Char) :
    lineComment? ((commentLine label).toList ++ behind) =
      some (' ' :: (label.toList.takeWhile (!isSeparator ·)).map commentChar,
        (label.toList.dropWhile (!isSeparator ·)).map commentChar ++ '\n' :: behind) := by
  have hlabel : ¬ label.isEmpty = true := by simpa using h
  have hshape : (commentLine label).toList ++ behind =
      '/' :: '/' :: ((' ' :: label.toList.map commentChar) ++ '\n' :: behind) := by
    rw [commentLine, if_neg hlabel, String.toList_append, String.toList_append,
      String.toList_ofList]
    simp
  have hkeep : (fun c => !endsLine c) ∘ commentChar = fun c => !isSeparator c := by
    funext c
    rw [Function.comp_apply, endsLine_commentChar]
  have hspace : (!endsLine ' ') = true := by decide
  rw [hshape, lineComment?_append (by decide), List.takeWhile_cons, List.dropWhile_cons,
    if_pos hspace, if_pos hspace, List.takeWhile_map, List.dropWhile_map, hkeep]

/-- **The comment of a label reaches its line feed** where no separator is in the
label, and only there. -/
theorem lineComment?_commentLine_eq_iff {label : String} (h : label ≠ "") (behind : List Char) :
    lineComment? ((commentLine label).toList ++ behind) =
        some (' ' :: label.toList.map commentChar, '\n' :: behind) ↔
      ∀ c ∈ label.toList, isSeparator c = false := by
  rw [lineComment?_commentLine h, Option.some.injEq, Prod.mk.injEq]
  constructor
  · rintro ⟨-, hleft⟩ c hc
    have hnil : label.toList.dropWhile (!isSeparator ·) = [] := by
      have hlength := congrArg List.length hleft
      simpa using hlength
    have hall := List.dropWhile_eq_nil_iff.mp hnil c hc
    simpa using hall
  · intro hall
    have hall' : ∀ c ∈ label.toList, (!isSeparator c) = true := fun c hc => by simp [hall c hc]
    rw [List.takeWhile_eq_self_iff.mpr hall', List.dropWhile_eq_nil_iff.mpr hall']
    exact ⟨rfl, rfl⟩

/-- The comment that begins in a script behind some text, and what follows it. -/
def commentBehind? (script : Script) (front : String) : Option (List Char × List Char) :=
  lineComment? (script.text.toList.drop front.length)

/-- Where a text is known, the comment in it is read from what stands there. -/
theorem commentBehind?_eq {script : Script} {front rest : String}
    (h : script.text = front ++ rest) :
    script.commentBehind? front = lineComment? rest.toList := by
  rw [commentBehind?, h, String.toList_append, ← String.length_toList, List.drop_left]

end Script

/-- **When the comments of a script reach their ends.** In front of the text of
each compiled node that has a label the script has its comment. Read from there
as a comment of one line, it reaches the line feed that was written behind the
label when no line or paragraph separator is in the label, and only then; with
one, what comes from the first separator on is left outside the comment. -/
theorem comment_reaches_end_iff (aliases : List (String × String)) {store : Store}
    (h : Reachable (Registry.builtin.withAliases aliases) store) {script : Script}
    (hcompile : store.graph.compile (Registry.builtin.withAliases aliases) true = .ok script) :
    let setting : Setting := ⟨Registry.builtin.withAliases aliases, store.graph.containment, true⟩
    ∃ emit pieces, script.Outlined setting emit pieces ∧
      (∀ n, n ∈ Piece.comments (setting.containment.root.flatMap pieces) ↔
        n.payload.label ≠ "" ∧ ∃ bodies code, .compiled n bodies code ∈ script.visits) ∧
      ∀ before n after, setting.containment.root.flatMap pieces = before ++ .comment n :: after →
        let front := Script.preamble ++ Piece.textOf before
        let behind := Piece.textOf after ++ Script.postamble
        script.text = front ++ (commentLine n.payload.label ++ behind) ∧
        script.commentBehind? front =
          some (' ' :: (n.payload.label.toList.takeWhile (!Script.isSeparator ·)).map commentChar,
            (n.payload.label.toList.dropWhile (!Script.isSeparator ·)).map commentChar ++
              '\n' :: behind.toList) ∧
        (script.commentBehind? front =
            some (' ' :: n.payload.label.toList.map commentChar, '\n' :: behind.toList) ↔
          ∀ c ∈ n.payload.label.toList, Script.isSeparator c = false) := by
  intro setting
  have hreg : setting.registry.OnlyBuiltins := Registry.onlyBuiltins_withAliases aliases
  have hnested : Nested setting.registry store.graph.nodes := h.nested hreg
  have hvalid : Validated setting :=
    Graph.validate_eq_ok_iff.mp (Graph.compile_eq_ok_iff.mp hcompile).1
  obtain ⟨emit, walk, pieces, hcomplete, houtlined⟩ := Graph.exists_outline hnested hreg hcompile
  have hmem (n : Node) := hcomplete.mem_comments_iff houtlined hnested hreg hvalid rfl (n := n)
  refine ⟨emit, pieces, houtlined, hmem, fun before n after hpieces => ?_⟩
  dsimp only
  have hlabel : n.payload.label ≠ "" := by
    refine ((hmem n).mp (Piece.mem_comments_iff.mpr ?_)).1
    rw [hpieces]
    exact List.mem_append_right _ List.mem_cons_self
  have htext : script.text = Script.preamble ++ Piece.textOf before ++
      (commentLine n.payload.label ++ (Piece.textOf after ++ Script.postamble)) := by
    rw [houtlined.text_eq hpieces, Piece.textOf_cons, Piece.text]
    simp only [String.append_assoc]
  refine ⟨htext, ?_, ?_⟩ <;> rw [Script.commentBehind?_eq htext, String.toList_append]
  · exact Script.lineComment?_commentLine hlabel _
  · exact Script.lineComment?_commentLine_eq_iff hlabel _

/-- A label of two lines stays in its comment. -/
theorem comment_reaches_end_withNotes :
    let registry := Registry.builtin.withAliases [("step", "action")]
    ∃ store, Reachable registry store ∧
      ∃ script, store.graph.compile registry true = .ok script ∧
        ∃ front behind, script.text = front ++ (commentLine "First\none" ++ behind) ∧
          script.commentBehind? front = some (" First one".toList, '\n' :: behind.toList) := by
  intro registry
  obtain ⟨result, hload, hvalid, n, bodies, code, hvisit, hlabel⟩ :
      ∃ result, Document.withNotes.load registry ⟨fun _ => 0, 0⟩ = .ok result ∧
        result.store.graph.validate registry = .ok () ∧
        ∃ n bodies code,
          (Script.generate registry result.store.graph.containment true).visits[1]? =
            some (.compiled n bodies code) ∧ n.payload.label = "First\none" :=
    ⟨_, rfl, rfl, _, _, _, rfl, rfl⟩
  have hreach : Reachable registry result.store := ⟨result.store, [], .loaded hload, rfl⟩
  have hcompile := Graph.compile_of_validate hvalid true
  obtain ⟨emit, pieces, houtlined, hmem, hcomments⟩ :=
    comment_reaches_end_iff [("step", "action")] hreach hcompile
  have hcomment := (hmem n).mpr
    ⟨by rw [hlabel]; decide, bodies, code, List.mem_of_getElem? hvisit⟩
  obtain ⟨before, after, hpieces⟩ := List.append_of_mem (Piece.mem_comments_iff.mp hcomment)
  obtain ⟨htext, -, hiff⟩ := hcomments before n after hpieces
  rw [hlabel] at htext hiff
  have hplain : "First\none".toList.any Script.isSeparator = false := by decide
  have hreaches := hiff.mpr fun c hc => by simpa using List.any_eq_false.mp hplain c hc
  exact ⟨_, hreach, _, hcompile, _, _, htext, hreaches⟩

/-- **A separator ends a comment inside a label**: what comes behind it is
code. -/
theorem separator_ends_comment :
    let operation : Operation := .addNode "action" ⟨"Greet\u2028alert()", ["hi();\n"], .null⟩ none
    let store := ((Store.empty .builtin ⟨Nat.toUInt32, 0⟩).performAll [operation]).2
    Reachable .builtin store ∧
      ∃ script, store.graph.compile .builtin true = .ok script ∧
        script.body = "// Greet\u2028alert()\nhi();\n" ∧
        script.commentBehind? Script.preamble =
          some (" Greet".toList,
            ("\u2028alert()\nhi();\n" ++ Script.postamble).toList) := by
  intro operation store
  have hreach : Reachable .builtin store := ⟨_, [operation], .empty _, rfl⟩
  obtain ⟨script, hcompile, hbody⟩ : ∃ script, store.graph.compile .builtin true = .ok script ∧
      script.body = "// Greet\u2028alert()\nhi();\n" := ⟨_, rfl, by decide⟩
  have htext : script.text =
      Script.preamble ++ ("// Greet\u2028alert()\nhi();\n" ++ Script.postamble) := by
    rw [Script.text, hbody, String.append_assoc]
  refine ⟨hreach, script, hcompile, hbody, ?_⟩
  rw [Script.commentBehind?_eq htext]
  decide

end StepGraph
