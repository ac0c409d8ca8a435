import StepGraph.Proofs.Store.Reachable
import StepGraph.Proofs.Text.Lines
import StepGraph.Script.Compilation

/-!
# Names that a script can declare

A variable of the graph is declared with `var` inside the function that the
preamble opens. For that its name has to be an identifier, none that the
preamble has taken as a parameter or declared (`Script.FreeInFrame`), and no
reserved word of ECMAScript (`Script.Declarable`). What the preamble takes is
read off its text. A registered name is always free in the frame, for the words
that the runtime reserves cover everything in the preamble; of the reserved
words of the language they leave out nine, and a variable can have any of these
as its name (`declarable_iff_of_mem_vars`).
-/

namespace StepGraph

namespace Script

/-! ## What the preamble takes -/

/-- The words of a line: its longest runs of characters that identifiers are
made of. -/
def wordsOf (line : List Char) : List String :=
  ((line.splitOnP fun c => !continuesIdentifier c).filter (!·.isEmpty)).map String.ofList

/-- The parameters of the asynchronous function that a text opens in its first
line. -/
def parameterNames (text : String) : List String :=
  match (Text.splitLines text.toList).head?.map wordsOf with
  | some ("async" :: "function" :: names) => names
  | _ => []

/-- The name that a line declares at its beginning. -/
def declaredName? (line : List Char) : Option String :=
  match wordsOf line with
  | keyword :: name :: _ => if keyword ∈ ["var", "let", "const"] then some name else none
  | _ => none

/-- **The names that a text declares**, line by line. -/
def declaredNames (text : String) : List String :=
  (Text.splitLines text.toList).filterMap declaredName?

-- The preamble is given to the kernel as its characters: to decode a text of
-- this length again takes it long.
set_option maxRecDepth 4000 in
/-- The preamble lists the capabilities as its parameters. -/
theorem parameterNames_preamble : parameterNames preamble = parameters := by
  have hchars : preamble.toList = _ := String.toList_ofList
  rw [parameterNames, hchars]
  decide

set_option maxRecDepth 4000 in
/-- The preamble declares the working variables and the ambient names. -/
theorem declaredNames_preamble : declaredNames preamble =
    ["response", "result", "conversation", "contact", "conversationId", "contactId",
      "contactName", "senderId"] := by
  have hchars : preamble.toList = _ := String.toList_ofList
  rw [declaredNames, hchars]
  decide

/-! ## What the language takes -/

/-- **The reserved words of ECMAScript.** -/
def languageWords : List String :=
  ["await", "break", "case", "catch", "class", "const", "continue", "debugger", "default",
    "delete", "do", "else", "enum", "export", "extends", "false", "finally", "for", "function",
    "if", "import", "in", "instanceof", "new", "null", "return", "super", "switch", "this",
    "throw", "true", "try", "typeof", "var", "void", "while", "with", "yield"]

/-- The reserved words of the language that the runtime does not reserve. -/
def uncoveredWords : List String :=
  ["debugger", "enum", "export", "extends", "finally", "import", "super", "with", "yield"]

theorem isReserved_or_uncovered {word : String} (h : word ∈ languageWords) :
    isReserved word = true ∨ word ∈ uncoveredWords := by
  have hall : ∀ word ∈ languageWords, isReserved word = true ∨ word ∈ uncoveredWords := by decide
  exact hall word h

theorem uncoveredWords_subset : uncoveredWords ⊆ languageWords := by decide

/-! ## Names -/

/-- **A name that the frame leaves free**: an identifier of ASCII characters
that is no parameter of the function and that the preamble does not declare. -/
structure FreeInFrame (name : String) : Prop where
  identifier : isIdentifier name = true
  ascii : ∀ c ∈ name.toList, c.toNat < 128
  not_parameter : name ∉ parameterNames preamble
  not_declared : name ∉ declaredNames preamble

/-- **A name that `var` can declare** inside the function of a script. -/
structure Declarable (name : String) : Prop extends FreeInFrame name where
  not_reserved : name ∉ languageWords

/-- The characters of identifiers are ASCII. -/
theorem toNat_lt_of_continuesIdentifier {c : Char} (h : continuesIdentifier c = true) :
    c.toNat < 128 := by
  have hle {last : Char} (h : c.val ≤ last.val) (hlast : last.toNat < 128) : c.toNat < 128 :=
    Nat.lt_of_le_of_lt (UInt32.le_iff_toNat_le.mp h) hlast
  rw [continuesIdentifier, Char.isAlphanum, Bool.or_eq_true, Bool.or_eq_true, Bool.or_eq_true,
    beq_iff_eq, beq_iff_eq] at h
  rcases h with (((hletter | hdigit) | rfl) | rfl)
  · rcases Bool.or_eq_true_iff.mp hletter with hupper | hlower
    · exact hle (of_decide_eq_true hupper).2 (by decide)
    · exact hle (of_decide_eq_true (Bool.and_eq_true_iff.mp hlower).2) (by decide)
  · exact hle (of_decide_eq_true (Bool.and_eq_true_iff.mp hdigit).2) (by decide)
  · decide
  · decide

/-- **A name that is not reserved is free in the frame**: the words that the
runtime reserves cover the preamble. -/
theorem freeInFrame_of_not_isReserved {name : String} (hname : isIdentifier name = true)
    (h : isReserved name = false) : FreeInFrame name := by
  have hparameters : ∀ taken ∈ parameterNames preamble, isReserved taken = true := by
    rw [parameterNames_preamble]
    decide
  have hdeclared : ∀ taken ∈ declaredNames preamble, isReserved taken = true := by
    rw [declaredNames_preamble]
    decide
  refine ⟨hname, fun c hc => toNat_lt_of_continuesIdentifier (continuesIdentifier_of_mem hname hc),
    fun hmem => ?_, fun hmem => ?_⟩
  · exact Bool.false_ne_true (h.symm.trans (hparameters name hmem))
  · exact Bool.false_ne_true (h.symm.trans (hdeclared name hmem))

/-- Such a name can be declared if it is none of the words left out. -/
theorem declarable_iff_of_not_isReserved {name : String} (hname : isIdentifier name = true)
    (h : isReserved name = false) : Declarable name ↔ name ∉ uncoveredWords := by
  constructor
  · exact fun hdeclarable hmem => hdeclarable.not_reserved (uncoveredWords_subset hmem)
  · intro hmem
    refine ⟨freeInFrame_of_not_isReserved hname h, fun hword => ?_⟩
    rcases isReserved_or_uncovered hword with hreserved | huncovered
    · exact Bool.false_ne_true (h.symm.trans hreserved)
    · exact hmem huncovered

end Script

/-! ## Names of variables -/

variable {registry : Registry} {store : Store} {v : Variable}

/-- **When the name of a variable can be declared**, in every store that some
run comes to: it is always free in the frame of the script, so it can be
declared unless it is one of the reserved words that the runtime does not
reserve. -/
theorem declarable_iff_of_mem_vars (h : Reachable registry store)
    (hv : v ∈ store.graph.vars.entries) :
    Script.FreeInFrame v.name ∧
      (Script.Declarable v.name ↔ v.name ∉ Script.uncoveredWords) := by
  obtain ⟨hidentifier, hreserved⟩ :=
    Variable.check_eq_ok_iff.mp (h.consistent.1.graph.vars.allowed v hv)
  exact ⟨Script.freeInFrame_of_not_isReserved hidentifier hreserved,
    Script.declarable_iff_of_not_isReserved hidentifier hreserved⟩

/-- A variable that a step brings in can be declared. -/
theorem declarable_withTotal :
    let operation : Operation := .addStep (.setVariable ⟨"$total_1", "Total"⟩ (.text "1")) none
    let store := ((Store.empty .builtin ⟨Nat.toUInt32, 0⟩).performAll [operation]).2
    ⟨"$total_1", "Total", "node_00000000"⟩ ∈ store.graph.vars.entries ∧
      Script.Declarable "$total_1" := by
  intro operation store
  have hreach : Reachable .builtin store := ⟨_, [operation], .empty _, rfl⟩
  have hmem : ⟨"$total_1", "Total", "node_00000000"⟩ ∈ store.graph.vars.entries := .head _
  exact ⟨hmem, (declarable_iff_of_mem_vars hreach hmem).2.mpr (by decide)⟩

/-- **A reserved word that is taken as a name**: the step that introduces `with`
is not refused, and the script declares it. -/
theorem declares_reserved_word :
    let operation : Operation := .addStep (.setVariable ⟨"with", "With"⟩ (.text "1")) none
    let run := (Store.empty .builtin ⟨Nat.toUInt32, 0⟩).performAll [operation]
    run.1 = [.ok (some "node_00000000")] ∧ Reachable .builtin run.2 ∧
      run.2.graph.vars.entries.map Variable.name = ["with"] ∧ ¬ Script.Declarable "with" ∧
      ∃ script, run.2.graph.compile .builtin false = .ok script ∧
        script.body = "var with = '1';\n" := by
  intro operation run
  refine ⟨rfl, ⟨_, [operation], .empty _, rfl⟩, rfl, ?_, _, rfl, by decide⟩
  exact fun h => h.not_reserved (by decide)

end StepGraph
