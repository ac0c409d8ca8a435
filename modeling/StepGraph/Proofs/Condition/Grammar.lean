import StepGraph.Proofs.Condition.Token

/-!
# The grammar of expressions

Which tokens spell which expression is said twice. `Derives` is the grammar: an
expression has a level, and an operator binds its operands no looser than its
own level, the right one tighter. `Parsing.run` reads tokens from left to right
with a stack of what is still open, and closes what binds at least as tightly as
the operator that comes next (`Parsing.reduce`).

The parser finds every expression that the grammar derives (`Derives.parse?_eq`),
so tokens spell one expression at most (`Derives.unique`).
-/

namespace StepGraph

open Expression (Operator Token)

/-- An expression of a script. -/
inductive Expression where
  | name (spelt : String)
  | text (literal : String)
  | integer (value : Nat)
  | not (operand : Expression)
  | binary (operator : Operator) (left right : Expression)
  | member (object : Expression) (property : String)
  | call (function : Expression) (arguments : List Expression)

namespace Expression

/-- How tightly an operator binds. -/
def Operator.level : Operator → Nat
  | or => 0
  | and => 1
  | equal | notEqual | identical | notIdentical => 2
  | less | lessOrEqual | greater | greaterOrEqual => 3

/-- The level of a negation, which binds tighter than what stands between two
operands. -/
def negation : Nat := 4

/-- The level of names, literals, brackets and calls. -/
def primary : Nat := 5

theorem Operator.level_lt_negation (operator : Operator) : operator.level < negation := by
  cases operator <;> decide

theorem Operator.level_lt_primary (operator : Operator) : operator.level < primary :=
  Nat.lt_succ_of_lt operator.level_lt_negation

/-- **The tokens that spell an expression of some level.** An expression in
brackets is the one inside them. -/
inductive Derives : Nat → List Token → Expression → Prop where
  | name (spelt : String) : Derives primary [.word spelt] (.name spelt)
  | text (literal : String) : Derives primary [.text literal] (.text literal)
  | integer (value : Nat) : Derives primary [.integer value] (.integer value)
  | group {tokens e} (inner : Derives 0 tokens e) :
      Derives primary (.opening :: (tokens ++ [.closing])) e
  | member {tokens e} (object : Derives primary tokens e) (property : String) :
      Derives primary (tokens ++ [.dot, .word property]) (.member e property)
  | call {tokens e} (function : Derives primary tokens e)
      (arguments : List (List Token × Expression))
      (each : ∀ argument ∈ arguments, Derives 0 argument.1 argument.2) :
      Derives primary
        (tokens ++ .opening :: ([Token.comma].intercalate (arguments.map Prod.fst) ++ [.closing]))
        (.call e (arguments.map Prod.snd))
  | not {tokens e} (operand : Derives negation tokens e) :
      Derives negation (.bang :: tokens) (.not e)
  | binary {left right l r} (operator : Operator) (hleft : Derives operator.level left l)
      (hright : Derives (operator.level + 1) right r) :
      Derives operator.level (left ++ .operator operator :: right) (.binary operator l r)
  | looser {level tokens e} (tighter : Derives (level + 1) tokens e) (hlevel : level < primary) :
      Derives level tokens e

variable {level lower : Nat} {tokens left right : List Token} {e l r : Expression}

/-- What binds tightly stands where less is asked. -/
theorem Derives.mono (h : Derives level tokens e) (hle : lower ≤ level)
    (hlevel : level ≤ primary) : Derives lower tokens e := by
  induction hle with
  | refl => exact h
  | step hle ih => exact ih (.looser h hlevel) (Nat.le_of_succ_le hlevel)

/-- Names, literals, brackets and calls stand everywhere. -/
theorem Derives.of_primary (h : Derives primary tokens e) (hlevel : level ≤ primary) :
    Derives level tokens e :=
  h.mono hlevel (Nat.le_refl primary)

/-! ## Reading -/

namespace Parsing

/-- What is open while an operand is read: a negation, an operator with its left
operand, a bracket, or a call with the arguments before. -/
inductive Frame where
  | not
  | binary (left : Expression) (operator : Operator)
  | group
  | call (function : Expression) (arguments : List Expression)

/-- Where the parser stands: before an operand, behind what may be called, or
behind a dot. -/
inductive State where
  | operand (stack : List Frame)
  | behind (e : Expression) (stack : List Frame)
  | dot (e : Expression) (stack : List Frame)

variable {stack : List Frame} {state next : State}

/-- Closes what binds at least as tightly as a level. -/
def reduce (level : Nat) (e : Expression) : List Frame → Expression × List Frame
  | .not :: stack => reduce level (.not e) stack
  | .binary left operator :: stack =>
    if level ≤ operator.level then reduce level (.binary operator left e) stack
    else (e, .binary left operator :: stack)
  | stack => (e, stack)

/-- What is read up to a comma. -/
def comma? : Expression × List Frame → Option State
  | (e, .call function arguments :: stack) =>
    some (.operand (.call function (arguments ++ [e]) :: stack))
  | _ => none

/-- What is read up to a closing bracket. -/
def close? : Expression × List Frame → Option State
  | (e, .group :: stack) => some (.behind e stack)
  | (e, .call function arguments :: stack) =>
    some (.behind (.call function (arguments ++ [e])) stack)
  | _ => none

/-- One token. -/
def step : State → Token → Option State
  | .operand stack, .word spelt => some (.behind (.name spelt) stack)
  | .operand stack, .text literal => some (.behind (.text literal) stack)
  | .operand stack, .integer value => some (.behind (.integer value) stack)
  | .operand stack, .bang => some (.operand (.not :: stack))
  | .operand stack, .opening => some (.operand (.group :: stack))
  | .operand (.call function [] :: stack), .closing => some (.behind (.call function []) stack)
  | .behind e stack, .dot => some (.dot e stack)
  | .behind e stack, .opening => some (.operand (.call e [] :: stack))
  | .behind e stack, .comma => comma? (reduce 0 e stack)
  | .behind e stack, .closing => close? (reduce 0 e stack)
  | .behind e stack, .operator operator =>
    let (left, stack) := reduce operator.level e stack
    some (.operand (.binary left operator :: stack))
  | .dot e stack, .word spelt => some (.behind (.member e spelt) stack)
  | _, _ => none

/-- Token after token. -/
def run (state : State) (tokens : List Token) : Option State :=
  tokens.foldlM step state

/-- What is read in the end, when nothing stays open. -/
def finish? : State → Option Expression
  | .behind e stack =>
    match reduce 0 e stack with
    | (e, []) => some e
    | _ => none
  | _ => none

/-- **The expression that tokens spell.** -/
def parse? (tokens : List Token) : Option Expression :=
  (run (.operand []) tokens).bind finish?

/-- A negation takes less than an operator, and of two equal operators the first
is inside. -/
example : parse? [.bang, .word "a", .operator .or, .word "b", .operator .equal, .word "c",
      .operator .equal, .integer 1] =
    some (.binary .or (.not (.name "a"))
      (.binary .equal (.binary .equal (.name "b") (.name "c")) (.integer 1))) := rfl

theorem run_append (first second : List Token) :
    run state (first ++ second) = (run state first).bind (run · second) :=
  List.foldlM_append

theorem run_cons (token : Token) (tokens : List Token) :
    run state (token :: tokens) = (step state token).bind (run · tokens) :=
  List.foldlM_cons

/-- A stack that stays as it is at every operator of a level or above. -/
def Holds (level : Nat) (stack : List Frame) : Prop :=
  ∀ operator : Operator, level ≤ operator.level → ∀ e, reduce operator.level e stack = (e, stack)

theorem holds_of_negation_le (h : negation ≤ level) (stack : List Frame) : Holds level stack :=
  fun operator hle => absurd (Nat.le_trans h hle) (Nat.not_le_of_lt operator.level_lt_negation)

/-- **The tokens of an expression are read in its place**: behind them the
parser closes to the expression and the stack there was, at the expression's
level and below. What may be called is there at once. -/
def Reads (level : Nat) (tokens : List Token) (e : Expression) : Prop :=
  ∀ stack, Holds level stack → ∃ last frames,
    run (.operand stack) tokens = some (.behind last frames) ∧
      (level = primary → last = e ∧ frames = stack) ∧
      ∀ other ≤ level, reduce other last frames = reduce other e stack

theorem Reads.of_run (h : ∀ stack, run (.operand stack) tokens = some (.behind e stack)) :
    Reads level tokens e :=
  fun stack _ => ⟨e, stack, h stack, fun _ => ⟨rfl, rfl⟩, fun _ _ => rfl⟩

/-- What may be called is there at once. -/
theorem Reads.run_primary (h : Reads primary tokens e) (stack : List Frame) :
    run (.operand stack) tokens = some (.behind e stack) := by
  obtain ⟨last, frames, hrun, hexact, -⟩ := h stack (holds_of_negation_le (Nat.le_succ 4) stack)
  obtain ⟨rfl, rfl⟩ := hexact rfl
  exact hrun

/-- Behind a bracket or a comma anything stands. -/
theorem Reads.run_inner (h : Reads 0 tokens e) (stack : List Frame)
    (hholds : ∀ level e, reduce level e stack = (e, stack)) :
    ∃ last frames, run (.operand stack) tokens = some (.behind last frames) ∧
      reduce 0 last frames = (e, stack) := by
  obtain ⟨last, frames, hrun, -, hreduce⟩ := h stack fun operator _ e => hholds _ e
  exact ⟨last, frames, hrun, (hreduce 0 (Nat.le_refl 0)).trans (hholds 0 e)⟩

theorem Reads.group (h : Reads 0 tokens e) :
    Reads primary (.opening :: (tokens ++ [.closing])) e := by
  refine Reads.of_run fun stack => ?_
  obtain ⟨last, frames, hrun, hreduce⟩ := h.run_inner (.group :: stack) fun _ _ => rfl
  rw [run_cons, step, Option.bind_some, run_append, hrun, Option.bind_some, run_cons, step, hreduce]
  rfl

theorem Reads.member (h : Reads primary tokens e) (property : String) :
    Reads primary (tokens ++ [.dot, .word property]) (.member e property) := by
  refine Reads.of_run fun stack => ?_
  rw [run_append, h.run_primary stack]
  rfl

/-- The arguments of a call, up to the bracket that closes it. -/
theorem run_arguments {first : List Token × Expression} {others : List (List Token × Expression)}
    (hfirst : Reads 0 first.1 first.2) (hothers : ∀ other ∈ others, Reads 0 other.1 other.2)
    (function : Expression) (before : List Expression) (stack : List Frame) :
    run (.operand (.call function before :: stack))
        ([Token.comma].intercalate ((first :: others).map Prod.fst) ++ [.closing]) =
      some (.behind (.call function (before ++ (first :: others).map Prod.snd)) stack) := by
  obtain ⟨last, frames, hrun, hreduce⟩ :=
    hfirst.run_inner (.call function before :: stack) fun _ _ => rfl
  induction others generalizing first before last frames with
  | nil =>
    rw [List.map_singleton, List.intercalate_singleton, run_append, hrun, Option.bind_some,
      run_cons, step, hreduce]
    rfl
  | cons second others ih =>
    obtain ⟨hsecond, hothers⟩ := List.forall_mem_cons.mp hothers
    obtain ⟨last', frames', hrun', hreduce'⟩ :=
      hsecond.run_inner (.call function (before ++ [first.2]) :: stack) fun _ _ => rfl
    have hcomma : step (.behind last frames) .comma =
        some (.operand (.call function (before ++ [first.2]) :: stack)) := by
      rw [step, hreduce, comma?]
    rw [List.map_cons, List.map_cons, List.intercalate_cons_cons, List.append_assoc,
      List.append_assoc, run_append, hrun, Option.bind_some, List.singleton_append, run_cons,
      hcomma, Option.bind_some, ← List.map_cons, ih hsecond hothers _ _ _ hrun' hreduce']
    simp

theorem Reads.call (h : Reads primary tokens e) {arguments : List (List Token × Expression)}
    (each : ∀ argument ∈ arguments, Reads 0 argument.1 argument.2) :
    Reads primary
      (tokens ++ .opening :: ([Token.comma].intercalate (arguments.map Prod.fst) ++ [.closing]))
      (.call e (arguments.map Prod.snd)) := by
  refine Reads.of_run fun stack => ?_
  rw [run_append, h.run_primary stack, Option.bind_some, run_cons, step, Option.bind_some]
  cases arguments with
  | nil => rfl
  | cons first others =>
    obtain ⟨hfirst, hothers⟩ := List.forall_mem_cons.mp each
    exact run_arguments hfirst hothers e [] stack

theorem Reads.not (h : Reads negation tokens e) : Reads negation (.bang :: tokens) (.not e) := by
  intro stack _
  have hholds := holds_of_negation_le (Nat.le_refl _) (.not :: stack)
  obtain ⟨last, frames, hrun, -, hreduce⟩ := h _ hholds
  refine ⟨last, frames, ?_, nofun, fun other hother => hreduce other hother⟩
  rw [run_cons, step, Option.bind_some, hrun]

theorem Reads.binary {operator : Operator} (hleft : Reads operator.level left l)
    (hright : Reads (operator.level + 1) right r) :
    Reads operator.level (left ++ .operator operator :: right) (.binary operator l r) := by
  intro stack hholds
  obtain ⟨lastLeft, openLeft, hrunLeft, -, hreduceLeft⟩ := hleft stack hholds
  have hopen : Holds (operator.level + 1) (.binary l operator :: stack) :=
    fun other hother e => if_neg (Nat.not_le_of_lt hother)
  obtain ⟨last, frames, hrun, -, hreduce⟩ := hright _ hopen
  refine ⟨last, frames, ?_, fun hprimary => ?_, fun other hother => ?_⟩
  · rw [run_append, hrunLeft, Option.bind_some, run_cons, step, hreduceLeft _ (Nat.le_refl _),
      hholds operator (Nat.le_refl _)]
    exact hrun
  · exact absurd hprimary (Nat.ne_of_lt operator.level_lt_primary)
  · rw [hreduce other (Nat.le_succ_of_le hother), reduce, if_pos hother]

theorem Reads.looser (h : Reads (level + 1) tokens e) (hlevel : level < primary) :
    Reads level tokens e := by
  intro stack hholds
  obtain ⟨last, frames, hrun, -, hreduce⟩ := h stack fun operator hle => hholds operator
    (Nat.le_of_succ_le hle)
  exact ⟨last, frames, hrun, fun hprimary => absurd hprimary (Nat.ne_of_lt hlevel),
    fun other hother => hreduce other (Nat.le_succ_of_le hother)⟩

end Parsing

open Parsing (Reads)

/-- **What the grammar derives is read.** -/
theorem Derives.reads (h : Derives level tokens e) : Reads level tokens e := by
  induction h with
  | name spelt => exact Reads.of_run fun _ => rfl
  | text literal => exact Reads.of_run fun _ => rfl
  | integer value => exact Reads.of_run fun _ => rfl
  | group _ ih => exact ih.group
  | member _ property ih => exact ih.member property
  | call _ arguments _ ih iheach => exact ih.call iheach
  | not _ ih => exact ih.not
  | binary operator _ _ ihleft ihright => exact ihleft.binary ihright
  | looser _ hlevel ih => exact ih.looser hlevel

/-- **The parser finds what the grammar derives.** -/
theorem Derives.parse?_eq (h : Derives 0 tokens e) : Parsing.parse? tokens = some e := by
  obtain ⟨last, frames, hrun, hreduce⟩ := h.reads.run_inner [] fun _ _ => rfl
  rw [Parsing.parse?, hrun, Option.bind_some, Parsing.finish?, hreduce]

/-- **Tokens spell one expression at most.** -/
theorem Derives.unique {e' : Expression} (h : Derives 0 tokens e) (h' : Derives 0 tokens e') :
    e = e' :=
  Option.some.inj (h.parse?_eq.symm.trans h'.parse?_eq)

/-! ## Two operands put together -/

/-- What binds tighter than an operator can tells its last loosest operator. -/
theorem Derives.tight_or_split (h : Derives level tokens e) {bound : Nat}
    (hbound : bound ≤ negation) :
    Derives bound tokens e ∨
      ∃ first operator last a b, tokens = first ++ .operator operator :: last ∧
        e = .binary operator a b ∧ level ≤ operator.level ∧ operator.level < bound ∧
        Derives operator.level first a ∧ Derives (operator.level + 1) last b := by
  have hprimary : bound ≤ primary := Nat.le_succ_of_le hbound
  induction h with
  | name spelt => exact .inl ((Derives.name spelt).of_primary hprimary)
  | text literal => exact .inl ((Derives.text literal).of_primary hprimary)
  | integer value => exact .inl ((Derives.integer value).of_primary hprimary)
  | group inner => exact .inl (inner.group.of_primary hprimary)
  | member object property => exact .inl ((object.member property).of_primary hprimary)
  | call function arguments each =>
    exact .inl ((function.call arguments each).of_primary hprimary)
  | not operand => exact .inl (operand.not.mono hbound (Nat.le_succ _))
  | binary operator hleft hright =>
    by_cases htight : bound ≤ operator.level
    · exact .inl ((Derives.binary operator hleft hright).mono htight
        (Nat.le_of_lt operator.level_lt_primary))
    · exact .inr ⟨_, operator, _, _, _, rfl, rfl, Nat.le_refl _, Nat.lt_of_not_le htight, hleft,
        hright⟩
  | looser _ _ ih =>
    refine ih.imp_right ?_
    rintro ⟨first, operator, last, a, b, htokens, he, hle, hrest⟩
    exact ⟨first, operator, last, a, b, htokens, he, Nat.le_of_succ_le hle, hrest⟩

/-- **An operator between two operands**: the tokens spell some expression, and
it is the operator with these operands only if both bind tightly enough. -/
def Joins (level : Nat) (left : List Token) (operator : Operator) (right : List Token)
    (l r : Expression) : Prop :=
  ∃ e, Derives level (left ++ .operator operator :: right) e ∧
    (e = .binary operator l r →
      Derives operator.level left l ∧ Derives (operator.level + 1) right r)

variable {operator other : Operator} {first last : List Token} {a b : Expression}

theorem Joins.mono (h : Joins level left operator right l r) (hle : lower ≤ level)
    (hlevel : level ≤ primary) : Joins lower left operator right l r := by
  obtain ⟨e, he, htight⟩ := h
  exact ⟨e, he.mono hle hlevel, htight⟩

/-- The operator stands in the left operand of one that stands behind it, which
takes only a part of the right operand. -/
theorem Joins.of_last (h : Joins other.level left operator first l a)
    (hlast : Derives (other.level + 1) last b) :
    Joins other.level left operator (first ++ .operator other :: last) l (.binary other a b) := by
  obtain ⟨e, he, -⟩ := h
  refine ⟨.binary other e b, ?_, ?_⟩
  · rw [← List.cons_append, ← List.append_assoc]
    exact .binary other he hlast
  · rintro ⟨⟩

/-- The operator stands in the right operand of a looser one in front of it. -/
theorem Joins.of_first (h : Joins (other.level + 1) last operator right b r)
    (hfirst : Derives other.level first a) (hlt : other.level < operator.level) :
    Joins other.level (first ++ .operator other :: last) operator right (.binary other a b) r := by
  obtain ⟨e, he, -⟩ := h
  refine ⟨.binary other a e, ?_, ?_⟩
  · rw [List.append_assoc, List.cons_append]
    exact .binary other hfirst he
  · rintro heq
    injection heq with hoperator
    exact absurd hlt (hoperator ▸ Nat.lt_irrefl _)

/-- **Two expressions with an operator between them spell an expression.** What
takes both sides is the loosest operator, and of equal ones the last. -/
theorem joins (hleft : Derives level left l) (hright : Derives level right r)
    (hlevel : level ≤ operator.level) : Joins level left operator right l r := by
  have hprimary (other : Operator) : other.level ≤ primary := Nat.le_of_lt other.level_lt_primary
  induction hsize : left.length + right.length using Nat.strongRecOn
    generalizing level left right l r with
  | _ size ih =>
    subst hsize
    rcases hleft.tight_or_split (Nat.le_of_lt operator.level_lt_negation) with htight |
      ⟨first, other, last, a, b, rfl, rfl, hle, hlt, hfirst, hlast⟩
    · rcases hright.tight_or_split operator.level_lt_negation with htight' |
        ⟨first', other', last', a', b', rfl, rfl, hle', hlt', hfirst', hlast'⟩
      · -- both operands stay whole
        exact ⟨_, (Derives.binary operator htight htight').mono hlevel (hprimary operator),
          fun _ => ⟨htight, htight'⟩⟩
      · -- the operator of the right operand takes both sides
        have hloose : other'.level ≤ operator.level := Nat.le_of_lt_succ hlt'
        have hinner := ih _ (by simp) (htight.mono hloose (hprimary operator)) hfirst' hloose rfl
        exact (hinner.of_last hlast').mono hle' (hprimary other')
    · have hwhole := Derives.binary other hfirst hlast
      rcases hright.tight_or_split operator.level_lt_negation with htight' |
        ⟨first', other', last', a', b', rfl, rfl, hle', hlt', hfirst', hlast'⟩
      · -- the operator of the left operand does
        have hinner := ih _ (by simp; omega) hlast
          (htight'.mono (Nat.le_succ_of_le hlt) operator.level_lt_primary) hlt rfl
        exact (hinner.of_first hfirst hlt).mono hle (hprimary other)
      · -- the looser one of the two does, or the last
        by_cases hcompare : other'.level ≤ other.level
        · have hinner := ih _ (by simp) (hwhole.mono hcompare (hprimary other)) hfirst'
            (Nat.le_of_lt_succ hlt') rfl
          exact (hinner.of_last hlast').mono hle' (hprimary other')
        · have hwhole' := Derives.binary other' hfirst' hlast'
          have hinner := ih _ (by simp; omega) hlast
            (hwhole'.mono (Nat.lt_of_not_le hcompare) (hprimary other')) hlt rfl
          exact (hinner.of_first hfirst hlt).mono hle (hprimary other)

end Expression

end StepGraph
