import StepGraph.Proofs.Text.Lines
import StepGraph.Proofs.Text.Quoted

/-!
# Scripts as statements

A script body is read line by line. A line is one of the few that branch
(`Line`), or it is code that is taken as it is. The reader keeps the blocks
that are open and what it has read of each (`State`); read to the end, the
body is a list of statements (`read`), which can be run once it is known
which conditions hold and what values are chosen by (`Env`).

A text means something when it is written in lines, can be read as
statements inside any block, and these statements run accordingly
(`Means`). Meanings are put together as texts are: one after the other
(`Means.append`), in a branch (`Means.branch`) and in a choice
(`Means.choice`).
-/

namespace StepGraph.Reading

open Text (Written linesOf)

/-! ## Lines -/

/-- A line of a script body. -/
inductive Line where
  | code (text : String)
  | opens (condition : String)
  | otherwise
  | chooses (expression : String)
  | label (value : String)
  | fallback
  | leaves
  | closes
  deriving DecidableEq, Repr

/-- What follows a front part. -/
def dropFront? : List Char → List Char → Option (List Char)
  | [], line => some line
  | _ :: _, [] => none
  | c :: front, d :: line => if c = d then dropFront? front line else none

/-- What stands between a front and a back part. -/
def enclosed? (front back line : String) : Option String :=
  (dropFront? front.toList line.toList).bind fun rest =>
    (dropFront? back.toList.reverse rest.reverse).map fun middle => String.ofList middle.reverse

/-- The value of a label, a text between single quotes. -/
def labelValue? (label : String) : Option String :=
  match Text.readQuoted label.toList with
  | some (value, []) => some (String.ofList value)
  | _ => none

/-- **What a line says.** Only a label that is no quoted text says
nothing. -/
def readLine (line : String) : Option Line :=
  match enclosed? "if (" ") \x7b" line with
  | some condition => some (.opens condition)
  | none => match enclosed? "switch (" ") \x7b" line with
    | some expression => some (.chooses expression)
    | none => match enclosed? "case " ":" line with
      | some label => (labelValue? label).map .label
      | none =>
        if line = "\x7d else \x7b" then some .otherwise
        else if line = "\x7d" then some .closes
        else if line = "default:" then some .fallback
        else if line = "break;" then some .leaves
        else some (.code line)

/-- **The lines that branch.** -/
def IsControl (line : String) : Prop :=
  line ∈ ["\x7d else \x7b", "\x7d", "default:", "break;"] ∨
    (∃ condition, line = "if (" ++ condition ++ ") \x7b") ∨
    (∃ expression, line = "switch (" ++ expression ++ ") \x7b") ∨
    ∃ label, line = "case " ++ label ++ ":"

theorem dropFront?_eq_some_iff {front line rest : List Char} :
    dropFront? front line = some rest ↔ line = front ++ rest := by
  induction front generalizing line with
  | nil => simp [dropFront?, eq_comm]
  | cons c front ih =>
    cases line with
    | nil => simp [dropFront?]
    | cons d line =>
      rw [dropFront?, List.cons_append, List.cons.injEq]
      by_cases hcd : c = d
      · rw [if_pos hcd, ih]
        exact ⟨fun h => ⟨hcd.symm, h⟩, fun h => h.2⟩
      · rw [if_neg hcd]
        exact ⟨nofun, fun h => absurd h.1.symm hcd⟩

/-- What is enclosed is what stands between. -/
theorem enclosed?_eq_some_iff {front back line middle : String} :
    enclosed? front back line = some middle ↔ line = front ++ middle ++ back := by
  rw [enclosed?, Option.bind_eq_some_iff]
  simp only [Option.map_eq_some_iff, dropFront?_eq_some_iff]
  constructor
  · rintro ⟨rest, hline, reversed, hrest, rfl⟩
    have hrest : rest = reversed.reverse ++ back.toList := by
      rw [← List.reverse_reverse rest, hrest, List.reverse_append, List.reverse_reverse]
    apply String.ext
    rw [hline, hrest, String.toList_append, String.toList_append, String.toList_ofList,
      List.append_assoc]
  · rintro rfl
    refine ⟨middle.toList ++ back.toList, ?_, middle.toList.reverse, List.reverse_append, ?_⟩
    · rw [String.toList_append, String.toList_append, List.append_assoc]
    · rw [List.reverse_reverse, String.ofList_toList]

/-- Nothing is enclosed in a line that begins otherwise. -/
theorem enclosed?_eq_none {front back line : String}
    (h : front.toList.head? ≠ line.toList.head?) (hfront : front.toList ≠ []) :
    enclosed? front back line = none := by
  rw [Option.eq_none_iff_forall_ne_some]
  intro middle henclosed
  rw [enclosed?_eq_some_iff.mp henclosed, String.toList_append, String.toList_append,
    List.append_assoc, List.head?_append_of_ne_nil _ hfront] at h
  exact h rfl

theorem readLine_opens (condition : String) :
    readLine ("if (" ++ condition ++ ") \x7b") = some (.opens condition) := by
  rw [readLine, enclosed?_eq_some_iff.mpr rfl]

theorem readLine_chooses (expression : String) :
    readLine ("switch (" ++ expression ++ ") \x7b") = some (.chooses expression) := by
  have hif : enclosed? "if (" ") \x7b" ("switch (" ++ expression ++ ") \x7b") = none :=
    enclosed?_eq_none (by simp [String.toList_append]) (by decide)
  rw [readLine, hif, enclosed?_eq_some_iff.mpr rfl]

theorem labelValue?_quote (value : String) : labelValue? (Text.quote value) = some value := by
  have hread := Text.readQuoted_quote value []
  rw [List.append_nil] at hread
  rw [labelValue?, hread]
  dsimp only
  rw [String.ofList_toList]

theorem readLine_case (label : String) :
    readLine ("case " ++ label ++ ":") = (labelValue? label).map .label := by
  have hif : enclosed? "if (" ") \x7b" ("case " ++ label ++ ":") = none :=
    enclosed?_eq_none (by simp [String.toList_append]) (by decide)
  have hswitch : enclosed? "switch (" ") \x7b" ("case " ++ label ++ ":") = none :=
    enclosed?_eq_none (by simp [String.toList_append]) (by decide)
  rw [readLine, hif, hswitch, enclosed?_eq_some_iff.mpr rfl]

theorem readLine_label (value : String) :
    readLine ("case " ++ Text.quote value ++ ":") = some (.label value) := by
  rw [readLine_case, labelValue?_quote, Option.map_some]

/-- A line that does not branch is code. -/
theorem readLine_code {line : String} (h : ¬ IsControl line) :
    readLine line = some (.code line) := by
  rw [IsControl, not_or, not_or, not_or] at h
  obtain ⟨hfixed, hif, hswitch, hcase⟩ := h
  have hnone {front back : String} (hshape : ¬ ∃ middle, line = front ++ middle ++ back) :
      enclosed? front back line = none := by
    rw [Option.eq_none_iff_forall_ne_some]
    exact fun middle henclosed => hshape ⟨middle, enclosed?_eq_some_iff.mp henclosed⟩
  simp only [List.mem_cons, List.not_mem_nil, or_false, not_or] at hfixed
  rw [readLine, hnone hif, hnone hswitch, hnone hcase]
  dsimp only
  rw [if_neg hfixed.1, if_neg hfixed.2.1, if_neg hfixed.2.2.1, if_neg hfixed.2.2.2]

/-- A line that branches is not code. -/
theorem readLine_ne_code {line : String} (h : IsControl line) :
    readLine line ≠ some (.code line) := by
  rcases h with hfixed | ⟨condition, rfl⟩ | ⟨expression, rfl⟩ | ⟨label, rfl⟩
  · simp only [List.mem_cons, List.not_mem_nil, or_false] at hfixed
    rcases hfixed with rfl | rfl | rfl | rfl <;> decide
  · rw [readLine_opens]
    nofun
  · rw [readLine_chooses]
    nofun
  · rw [readLine_case]
    cases labelValue? label <;> nofun

instance : DecidablePred IsControl := fun line =>
  decidable_of_iff (readLine line ≠ some (.code line))
    ⟨fun h => Classical.not_not.mp fun hnot => h (readLine_code hnot), readLine_ne_code⟩

/-! ## Statements -/

/-- A statement of a script body. -/
inductive Stmt where
  | code (line : String)
  | branch (condition : String) (thens elses : List Stmt)
  | choice (expression : String) (cases : List (String × List Stmt)) (fallback : List Stmt)

/-- Which conditions hold, and what values expressions have. -/
structure Env where
  holds : String → Bool
  value : String → String

mutual

/-- The lines of code that a statement runs. -/
def Stmt.run (env : Env) : Stmt → List String
  | .code line => [line]
  | .branch condition thens elses =>
    if env.holds condition then runAll env thens else runAll env elses
  | .choice expression cases fallback =>
    runCases env (env.value expression) (runAll env fallback) cases

/-- The lines of code that statements run, one after the other. -/
def runAll (env : Env) : List Stmt → List String
  | [] => []
  | stmt :: rest => stmt.run env ++ runAll env rest

/-- The first case of a value runs, and where there is none the fallback. -/
def runCases (env : Env) (value : String) (fallback : List String) :
    List (String × List Stmt) → List String
  | [] => fallback
  | (label, body) :: rest =>
    if label = value then runAll env body else runCases env value fallback rest

end

/-! ## Reading -/

/-- A block that is open: what its statements are the statements of. -/
inductive Frame where
  | thens (condition : String)
  | elses (condition : String) (thens : List Stmt)
  | case (expression : String) (cases : List (String × List Stmt)) (value : String)
  | fallback (expression : String) (cases : List (String × List Stmt))

/-- How far a body is read. `levels` are the open blocks with the statements
before them, the innermost first. -/
inductive State where
  /-- In a block, behind these statements. -/
  | block (levels : List (Frame × List Stmt)) (stmts : List Stmt)
  /-- Between the cases of a choice. -/
  | choosing (levels : List (Frame × List Stmt)) (stmts : List Stmt) (expression : String)
      (cases : List (String × List Stmt))
  /-- Behind the fallback of a choice. -/
  | chosen (levels : List (Frame × List Stmt)) (stmts : List Stmt) (expression : String)
      (cases : List (String × List Stmt)) (fallback : List Stmt)

/-- One more line. A line that has no place where it stands ends the
reading. -/
def State.next : State → Line → Option State
  | .block levels stmts, .code line => some (.block levels (stmts ++ [.code line]))
  | .block levels stmts, .opens condition => some (.block ((.thens condition, stmts) :: levels) [])
  | .block levels stmts, .chooses expression => some (.choosing levels stmts expression [])
  | .block ((.thens condition, before) :: levels) stmts, .otherwise =>
    some (.block ((.elses condition stmts, before) :: levels) [])
  | .block ((.elses condition thens, before) :: levels) stmts, .closes =>
    some (.block levels (before ++ [.branch condition thens stmts]))
  | .choosing levels before expression cases, .label value =>
    some (.block ((.case expression cases value, before) :: levels) [])
  | .block ((.case expression cases value, before) :: levels) stmts, .leaves =>
    some (.choosing levels before expression (cases ++ [(value, stmts)]))
  | .choosing levels before expression cases, .fallback =>
    some (.block ((.fallback expression cases, before) :: levels) [])
  | .block ((.fallback expression cases, before) :: levels) stmts, .leaves =>
    some (.chosen levels before expression cases stmts)
  | .chosen levels before expression cases fallback, .closes =>
    some (.block levels (before ++ [.choice expression cases fallback]))
  | _, _ => none

/-- Lines read one after the other. -/
def readLines (lines : List String) (state : State) : Option State :=
  lines.foldlM (fun state line => (readLine line).bind state.next) state

/-- **The statements of a script body**, where every block is closed. -/
def read (body : String) : Option (List Stmt) :=
  match readLines (linesOf body) (.block [] []) with
  | some (.block [] stmts) => some stmts
  | _ => none

/-! ## Meaning -/

/-- Lines that are read inside any block as these statements. -/
def Reads (lines : List String) (stmts : List Stmt) : Prop :=
  ∀ levels before,
    readLines lines (.block levels before) = some (.block levels (before ++ stmts))

/-- **A text that means something**: it is written in lines, they are read as
statements inside any block, and these run so. -/
def Means (text : String) (meaning : Env → List String) : Prop :=
  ∃ lines stmts, Written text lines ∧ Reads lines stmts ∧ ∀ env, runAll env stmts = meaning env

theorem readLines_cons {line : String} {lines : List String} {state : State} {said : Line}
    (h : readLine line = some said) :
    readLines (line :: lines) state = (state.next said).bind (readLines lines) := by
  rw [readLines, List.foldlM_cons, h]
  rfl

theorem readLines_single {line : String} {state : State} {said : Line}
    (h : readLine line = some said) : readLines [line] state = state.next said := by
  rw [readLines_cons h]
  cases state.next said <;> rfl

theorem readLines_append (lines rest : List String) (state : State) :
    readLines (lines ++ rest) state = (readLines lines state).bind (readLines rest) := by
  unfold readLines
  rw [List.foldlM_append]
  rfl

theorem runAll_append (env : Env) (stmts rest : List Stmt) :
    runAll env (stmts ++ rest) = runAll env stmts ++ runAll env rest := by
  induction stmts with
  | nil => simp [runAll]
  | cons stmt stmts ih => rw [List.cons_append, runAll, runAll, ih, List.append_assoc]

namespace Means

variable {text text' : String} {meaning meaning' : Env → List String}

/-- **What means something is read**, and what is read runs so. -/
theorem read_eq (h : Means text meaning) :
    ∃ stmts, read text = some stmts ∧ ∀ env, runAll env stmts = meaning env := by
  obtain ⟨lines, stmts, hwritten, hreads, hrun⟩ := h
  refine ⟨stmts, ?_, hrun⟩
  rw [read, hwritten.linesOf_eq, hreads, List.nil_append]

example : read "go();\nif (!!ready) \x7b\nwait();\n\x7d else \x7b\n\x7d\n" =
    some [.code "go();", .branch "!!ready" [.code "wait();"] []] := by
  rfl

theorem nil : Means "" fun _ => [] :=
  ⟨[], [], .nil, fun levels before => by rw [List.append_nil]; rfl, fun _ => by rw [runAll]⟩

/-- Code means itself. -/
theorem code {lines : List String} (h : Written text lines)
    (hcode : ∀ line ∈ lines, ¬ IsControl line) : Means text fun _ => lines := by
  refine ⟨lines, lines.map .code, h, fun levels before => ?_, fun env => ?_⟩
  · clear h
    induction lines generalizing before with
    | nil => rw [List.map_nil, List.append_nil]; rfl
    | cons line lines ih =>
      obtain ⟨hline, hlines⟩ := List.forall_mem_cons.mp hcode
      rw [readLines_cons (readLine_code hline)]
      exact (ih hlines _).trans (by rw [List.append_assoc]; rfl)
  · clear h hcode
    induction lines with
    | nil => rw [List.map_nil, runAll]
    | cons line lines ih => rw [List.map_cons, runAll, ih, Stmt.run, List.singleton_append]

/-- **One after the other.** -/
theorem append (h : Means text meaning) (h' : Means text' meaning') :
    Means (text ++ text') fun env => meaning env ++ meaning' env := by
  obtain ⟨lines, stmts, hwritten, hreads, hrun⟩ := h
  obtain ⟨lines', stmts', hwritten', hreads', hrun'⟩ := h'
  refine ⟨lines ++ lines', stmts ++ stmts', hwritten.append hwritten', ?_, ?_⟩
  · intro levels before
    rw [readLines_append, hreads, Option.bind_some, hreads', List.append_assoc]
  · intro env
    rw [runAll_append, hrun, hrun']

theorem join {α : Type} {items : List α} {text : α → String} {meaning : α → Env → List String}
    (h : ∀ item ∈ items, Means (text item) (meaning item)) :
    Means (String.join (items.map text)) fun env => items.flatMap fun item => meaning item env := by
  induction items with
  | nil => exact .nil
  | cons item items ih =>
    obtain ⟨hitem, hitems⟩ := List.forall_mem_cons.mp h
    rw [List.map_cons, String.join_cons]
    exact hitem.append (ih hitems)

/-- **A branch** means what the block means that the condition chooses. -/
theorem branch {condition : String} (hone : '\n' ∉ condition.toList) (h : Means text meaning)
    (h' : Means text' meaning') :
    Means ("if (" ++ condition ++ ") \x7b\n" ++ text ++ "\x7d else \x7b\n" ++ text' ++ "\x7d\n")
      fun env => if env.holds condition then meaning env else meaning' env := by
  obtain ⟨lines, stmts, hwritten, hreads, hrun⟩ := h
  obtain ⟨lines', stmts', hwritten', hreads', hrun'⟩ := h'
  have hfeed : ") \x7b\n" = ") \x7b" ++ "\n" := by decide
  have hopens : Written ("if (" ++ condition ++ ") \x7b\n") ["if (" ++ condition ++ ") \x7b"] :=
    .single (by rw [hfeed, ← String.append_assoc]) (by simp [String.toList_append, hone])
  have helse : Written "\x7d else \x7b\n" ["\x7d else \x7b"] := .single (by decide) (by decide)
  have hcloses : Written "\x7d\n" ["\x7d"] := .single (by decide) (by decide)
  refine ⟨_, [.branch condition stmts stmts'],
    (((hopens.append hwritten).append helse).append hwritten').append hcloses, ?_, ?_⟩
  · intro levels before
    have hotherwise : readLine "\x7d else \x7b" = some .otherwise := rfl
    have hclose : readLine "\x7d" = some .closes := rfl
    simp only [readLines_append, readLines_single (readLine_opens condition),
      readLines_single hotherwise, readLines_single hclose, State.next, Option.bind_some, hreads _,
      hreads' _, List.nil_append]
  · intro env
    simp only [runAll, Stmt.run, hrun, hrun', List.append_nil]

section Choice

variable {α : Type} {items : List α} {body : α → String} {meanings : α → Env → List String}
variable (value : α → String)

/-- Cases are read one after the other, and the first one of a value runs. -/
theorem exists_cases (h : ∀ item ∈ items, Means (body item) (meanings item)) :
    ∃ lines cases,
      Written (String.join (items.map fun item =>
        "case " ++ Text.quote (value item) ++ ":\n" ++ body item ++ "break;\n")) lines ∧
      (∀ levels before expression done,
        readLines lines (.choosing levels before expression done) =
          some (.choosing levels before expression (done ++ cases))) ∧
      ∀ env chosen fallback, runCases env chosen fallback cases =
        (items.find? fun item => value item == chosen).elim fallback (meanings · env) := by
  induction items with
  | nil =>
    refine ⟨[], [], .nil, fun levels before expression done => ?_, fun env chosen fallback => ?_⟩
    · rw [List.append_nil]
      rfl
    · rw [runCases]
      rfl
  | cons item items ih =>
    obtain ⟨hitem, hitems⟩ := List.forall_mem_cons.mp h
    obtain ⟨bodyLines, stmts, hwritten, hreads, hrun⟩ := hitem
    obtain ⟨lines, cases, hrest, hreadRest, hrunRest⟩ := ih hitems
    have hfeed : ":\n" = ":" ++ "\n" := by decide
    have hlabel : Written ("case " ++ Text.quote (value item) ++ ":\n")
        ["case " ++ Text.quote (value item) ++ ":"] :=
      .single (by rw [hfeed, ← String.append_assoc])
        (by simp [String.toList_append, Text.newline_not_mem_quote])
    have hleaves : Written "break;\n" ["break;"] := .single (by decide) (by decide)
    refine ⟨["case " ++ Text.quote (value item) ++ ":"] ++ bodyLines ++ ["break;"] ++ lines,
      (value item, stmts) :: cases, ?_, ?_, ?_⟩
    · rw [List.map_cons, String.join_cons]
      exact ((hlabel.append hwritten).append hleaves).append hrest
    · intro levels before expression done
      have hleave : readLine "break;" = some .leaves := rfl
      simp only [List.append_assoc, List.cons_append, readLines_append,
        readLines_cons (readLine_label (value item)), readLines_cons hleave, State.next,
        Option.bind_some, hreads _, hreadRest, List.nil_append]
    · intro env chosen fallback
      rw [runCases, List.find?_cons]
      by_cases heq : value item = chosen
      · rw [if_pos heq, heq, beq_self_eq_true, hrun, Option.elim_some]
      · rw [if_neg heq, beq_false_of_ne heq, hrunRest]

/-- **A choice** means what the case means whose value the expression has,
and where there is none what the fallback means. -/
theorem choice {expression : String} (hone : '\n' ∉ expression.toList)
    (h : ∀ item ∈ items, Means (body item) (meanings item)) (h' : Means text' meaning') :
    Means ("switch (" ++ expression ++ ") \x7b\n" ++
        String.join (items.map fun item =>
          "case " ++ Text.quote (value item) ++ ":\n" ++ body item ++ "break;\n") ++
        "default:\n" ++ text' ++ "break;\n\x7d\n")
      fun env => (items.find? fun item => value item == env.value expression).elim (meaning' env)
        (meanings · env) := by
  obtain ⟨lines, cases, hwritten, hreads, hrun⟩ := exists_cases value h
  obtain ⟨lines', stmts', hwritten', hreads', hrun'⟩ := h'
  have hfeed : ") \x7b\n" = ") \x7b" ++ "\n" := by decide
  have hchooses : Written ("switch (" ++ expression ++ ") \x7b\n")
      ["switch (" ++ expression ++ ") \x7b"] :=
    .single (by rw [hfeed, ← String.append_assoc]) (by simp [String.toList_append, hone])
  have hfallback : Written "default:\n" ["default:"] := .single (by decide) (by decide)
  have hcloses : Written "break;\n\x7d\n" ["break;", "\x7d"] := ⟨by decide, by decide⟩
  refine ⟨_, [.choice expression cases stmts'],
    (((hchooses.append hwritten).append hfallback).append hwritten').append hcloses, ?_, ?_⟩
  · intro levels before
    have hdefault : readLine "default:" = some .fallback := rfl
    have hleave : readLine "break;" = some .leaves := rfl
    have hclose : readLine "\x7d" = some .closes := rfl
    simp only [readLines_append, readLines_single (readLine_chooses expression),
      readLines_single hdefault, readLines_cons hleave, readLines_single hclose, State.next,
      Option.bind_some, hreads, hreads' _, List.nil_append]
  · intro env
    simp only [runAll, Stmt.run, hrun, hrun', List.append_nil]

end Choice

end Means

end StepGraph.Reading
