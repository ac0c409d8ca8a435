import StepGraph.Proofs.Condition.Grammar
import StepGraph.Proofs.Condition.ReadBack

/-!
# The grouping of raw expressions

A raw operand may be any expression. Behind an exclamation mark it is put into
parentheses, and in a call it stands between brackets or commas, so it stays one
operand. Next to an operator it stands as it is: the comparison is parsed all
the same, by one expression, but that is the operator applied to both operands
only if each of them binds tightly enough (`Comparison.grouping_iff`).
-/

namespace StepGraph

open Expression (Operator Token)
open Expression.Token.Scan (tokens?)

/-! ## Texts -/

namespace Expression

/-- **A text is an expression** of some level. -/
def Parses (level : Nat) (text : String) (e : Expression) : Prop :=
  ∃ tokens, Token.all? text = some tokens ∧ Derives level tokens e

variable {level lower : Nat} {text other : String} {e a b : Expression}

theorem Parses.mono (h : Parses level text e) (hle : lower ≤ level) (hlevel : level ≤ primary) :
    Parses lower text e := by
  obtain ⟨tokens, hall, he⟩ := h
  exact ⟨tokens, hall, he.mono hle hlevel⟩

theorem Parses.of_primary (h : Parses primary text e) (hlevel : level ≤ primary) :
    Parses level text e :=
  h.mono hlevel (Nat.le_refl primary)

/-- **A text is one expression at most.** -/
theorem Parses.unique (h : Parses 0 text a) (h' : Parses 0 text b) : a = b := by
  obtain ⟨tokens, hall, ha⟩ := h
  obtain ⟨tokens', hall', hb⟩ := h'
  obtain rfl := Option.some.inj (hall.symm.trans hall')
  exact ha.unique hb

theorem Parses.iff_eq (h : Parses 0 text e) (e' : Expression) : Parses 0 text e' ↔ e' = e :=
  ⟨fun h' => h'.unique h, fun heq => heq ▸ h⟩

/-- A text in brackets. -/
theorem Parses.group (h : Parses 0 text e) : Parses primary ("(" ++ text ++ ")") e := by
  obtain ⟨tokens, hall, he⟩ := h
  refine ⟨_, ?_, he.group⟩
  have hlist : ("(" ++ text ++ ")").toList = '(' :: (text.toList ++ [')']) := by simp
  rw [Token.all?, hlist, Token.tokens?_opening,
    Token.tokens?_append hall Token.separates_closing, Token.tokens?_closing]
  simp [tokens?, Token.Scan.finish?]

/-- A text behind an exclamation mark. -/
theorem Parses.not (h : Parses negation text e) (hhead : text.toList.head? ≠ some '=') :
    Parses negation ("!" ++ text) (.not e) := by
  obtain ⟨tokens, hall, he⟩ := h
  refine ⟨_, ?_, he.not⟩
  have hlist : ("!" ++ text).toList = '!' :: text.toList := by simp
  rw [Token.all?, hlist, Token.tokens?_bang hhead, ← Token.all?, hall, Option.map_some]

/-- An operator between two texts, with blanks around it. -/
theorem all?_between {left right tokens : List Token} {spelt : String} {sign : List Char}
    (hleft : Token.all? text = some left) (hright : Token.all? other = some right)
    (hspelt : spelt.toList = ' ' :: (sign ++ [' ']))
    (hsign : tokens? .between sign = some tokens) :
    Token.all? (text ++ spelt ++ other) = some (left ++ (tokens ++ right)) := by
  have hlist : (text ++ spelt ++ other).toList =
      text.toList ++ ' ' :: (sign ++ ' ' :: other.toList) := by simp [hspelt]
  rw [Token.all?, hlist, Token.tokens?_append hleft Token.separates_blank, Token.tokens?_blank,
    Token.tokens?_append hsign Token.separates_blank, Token.tokens?_blank, ← Token.all?, hright]
  rfl

/-- **A text with an operator between two others is an expression**, and it is
the operator with their expressions where they bind tightly enough, and only
there. -/
theorem Parses.between (h : Parses 0 text a) (h' : Parses 0 other b) {operator : Operator}
    {spelt : String} {sign : List Char} (hspelt : spelt.toList = ' ' :: (sign ++ [' ']))
    (hsign : tokens? .between sign = some [.operator operator]) :
    ∃ e, Parses 0 (text ++ spelt ++ other) e ∧
      (e = .binary operator a b ↔
        Parses operator.level text a ∧ Parses (operator.level + 1) other b) := by
  obtain ⟨left, hleft, ha⟩ := h
  obtain ⟨right, hright, hb⟩ := h'
  have hall := all?_between hleft hright hspelt hsign
  obtain ⟨e, he, htight⟩ := joins ha hb (Nat.zero_le operator.level)
  refine ⟨e, ⟨_, hall, he⟩, fun heq => ?_, ?_⟩
  · obtain ⟨ha, hb⟩ := htight heq
    exact ⟨⟨left, hleft, ha⟩, ⟨right, hright, hb⟩⟩
  · rintro ⟨⟨left', hleft', ha'⟩, ⟨right', hright', hb'⟩⟩
    obtain rfl := Option.some.inj (hleft.symm.trans hleft')
    obtain rfl := Option.some.inj (hright.symm.trans hright')
    exact he.unique ((Derives.binary operator ha' hb').mono (Nat.zero_le _)
      (Nat.le_of_lt operator.level_lt_primary))

/-- A text as an argument of a function, and another one as an argument of a
method of what comes out. -/
theorem Parses.method (h : Parses 0 text a) (h' : Parses 0 other b) {spelt method : String}
    (hspelt : spelt.toList = ')' :: '.' :: (method.toList ++ ['(']))
    (hmethod : tokens? .between ('.' :: method.toList) = some [.dot, .word method]) :
    Parses primary ("String(" ++ text ++ spelt ++ other ++ ")")
      (.call (.member (.call (.name "String") [a]) method) [b]) := by
  obtain ⟨left, hleft, ha⟩ := h
  obtain ⟨right, hright, hb⟩ := h'
  have hstring : tokens? .between "String".toList = some [.word "String"] := by decide
  have hlist : ("String(" ++ text ++ spelt ++ other ++ ")").toList = "String".toList ++
      '(' :: (text.toList ++ ')' :: ('.' :: method.toList ++ '(' :: (other.toList ++ [')']))) := by
    simp [hspelt]
  have hcall := ((Derives.name "String").call [(left, a)] (by simpa using ha)).member method
  refine ⟨_, ?_, hcall.call [(right, b)] (by simpa using hb)⟩
  rw [Token.all?, hlist, Token.tokens?_append hstring Token.separates_opening,
    Token.tokens?_opening, Token.tokens?_append hleft Token.separates_closing,
    Token.tokens?_closing, Token.tokens?_append hmethod Token.separates_opening,
    Token.tokens?_opening, Token.tokens?_append hright Token.separates_closing,
    Token.tokens?_closing]
  simp [tokens?, Token.Scan.finish?]

end Expression

/-! ## Operands -/

namespace Operand

/-- **What an operand stands for**: a variable its name, a text its literal, and
a raw expression what it parses to. -/
def Means : Operand → Expression → Prop
  | reference name, e => Script.isIdentifier name = true ∧ e = .name name
  | text value, e => e = .text (Text.quote value)
  | raw expression, e => Expression.Parses 0 expression e
  | number _, _ => False

/-- Whether an operand is an expression of some level, as it stands. -/
def Binds (level : Nat) : Operand → Prop
  | raw expression => ∃ e, Expression.Parses level expression e
  | _ => True

variable {operand : Operand} {level : Nat} {e : Expression}

theorem Means.cases (h : operand.Means e) :
    Expression.Parses Expression.primary operand.render e ∨
      ∃ expression, operand = .raw expression := by
  cases operand with
  | reference name =>
    obtain ⟨hname, rfl⟩ := h
    exact .inl ⟨_, Expression.Token.all?_of_isIdentifier hname, .name name⟩
  | text value =>
    obtain rfl : e = .text (Text.quote value) := h
    exact .inl ⟨_, Expression.Token.all?_quote value, .text _⟩
  | number _ => cases h
  | raw expression => exact .inr ⟨expression, rfl⟩

/-- **An operand is parsed** as what it stands for. -/
theorem Means.parses (h : operand.Means e) : Expression.Parses 0 operand.render e := by
  rcases h.cases with hprimary | ⟨expression, rfl⟩
  · exact hprimary.of_primary (Nat.zero_le _)
  · exact h

/-- So it is at a tighter level, where it binds. -/
theorem Means.parses_of_binds (h : operand.Means e) (hbinds : operand.Binds level)
    (hlevel : level ≤ Expression.primary) : Expression.Parses level operand.render e := by
  rcases h.cases with hprimary | ⟨expression, rfl⟩
  · exact hprimary.of_primary hlevel
  · obtain ⟨e', he'⟩ := hbinds
    obtain rfl := Expression.Parses.unique h (he'.mono (Nat.zero_le _) hlevel)
    exact he'

theorem Means.binds (h : operand.Means e) (hparses : Expression.Parses level operand.render e) :
    operand.Binds level := by
  cases operand with
  | raw expression => exact ⟨e, hparses⟩
  | _ => trivial

/-- Behind an exclamation mark every operand is whole. -/
theorem Means.parses_negated (h : operand.Means e) :
    Expression.Parses Expression.primary (Comparison.negated operand) e ∧
      (Comparison.negated operand).toList.head? ≠ some '=' := by
  cases operand with
  | reference name =>
    refine ⟨h.cases.resolve_right nofun, fun hhead => ?_⟩
    have hmem : '=' ∈ name.toList := List.mem_of_head? hhead
    exact absurd (Script.continuesIdentifier_of_mem h.1 hmem) (by decide)
  | text value =>
    exact ⟨h.cases.resolve_right nofun, by simp [Comparison.negated, render, Text.quote]⟩
  | number _ => cases h
  | raw expression => exact ⟨Expression.Parses.group h, by simp [Comparison.negated]⟩

end Operand

/-! ## Comparisons -/

namespace ComparisonOperator

/-- The operator that stands between the operands. -/
def between? : ComparisonOperator → Option Operator
  | equals => some .equal
  | notEquals => some .notEqual
  | greaterThan => some .greater
  | greaterOrEqual => some .greaterOrEqual
  | lessThan => some .less
  | lessOrEqual => some .lessOrEqual
  | contains | startsWith | isPresent | isAbsent => none

/-- **An operator applied to operands**, a unary one to the left operand. -/
def applied (operator : ComparisonOperator) (l r : Expression) : Expression :=
  match operator with
  | equals => .binary .equal l r
  | notEquals => .binary .notEqual l r
  | greaterThan => .binary .greater l r
  | greaterOrEqual => .binary .greaterOrEqual l r
  | lessThan => .binary .less l r
  | lessOrEqual => .binary .lessOrEqual l r
  | contains => .call (.member (.call (.name "String") [l]) "includes") [r]
  | startsWith => .call (.member (.call (.name "String") [l]) "startsWith") [r]
  | isPresent => .not (.not l)
  | isAbsent => .not l

/-- An operator that stands between the operands, as it is spelt. -/
theorem exists_between_of_mem {text : String} {operator : ComparisonOperator}
    (h : (text, operator) ∈ Comparison.infixes) :
    ∃ between sign, operator.between? = some between ∧
      (∀ l r, operator.applied l r = .binary between l r) ∧
      text.toList = ' ' :: (sign ++ [' ']) ∧ tokens? .between sign = some [.operator between] := by
  simp only [Comparison.infixes, List.mem_cons, Prod.mk.injEq, List.not_mem_nil, or_false] at h
  rcases h with ⟨rfl, rfl⟩ | ⟨rfl, rfl⟩ | ⟨rfl, rfl⟩ | ⟨rfl, rfl⟩ | ⟨rfl, rfl⟩ | ⟨rfl, rfl⟩
  · exact ⟨.equal, ['=', '='], rfl, fun _ _ => rfl, rfl, by decide⟩
  · exact ⟨.notEqual, ['!', '='], rfl, fun _ _ => rfl, rfl, by decide⟩
  · exact ⟨.greater, ['>'], rfl, fun _ _ => rfl, rfl, by decide⟩
  · exact ⟨.greaterOrEqual, ['>', '='], rfl, fun _ _ => rfl, rfl, by decide⟩
  · exact ⟨.less, ['<'], rfl, fun _ _ => rfl, rfl, by decide⟩
  · exact ⟨.lessOrEqual, ['<', '='], rfl, fun _ _ => rfl, rfl, by decide⟩

/-- A method that the operator calls, as it is spelt. -/
theorem exists_method_of_mem {text : String} {operator : ComparisonOperator}
    (h : (text, operator) ∈ Comparison.methods) :
    ∃ method, operator.between? = none ∧
      (∀ l r, operator.applied l r = .call (.member (.call (.name "String") [l]) method) [r]) ∧
      text.toList = ')' :: '.' :: (method.toList ++ ['(']) ∧
      tokens? .between ('.' :: method.toList) = some [.dot, .word method] := by
  simp only [Comparison.methods, List.mem_cons, Prod.mk.injEq, List.not_mem_nil, or_false] at h
  rcases h with ⟨rfl, rfl⟩ | ⟨rfl, rfl⟩
  · exact ⟨"includes", rfl, fun _ _ => rfl, rfl, by decide⟩
  · exact ⟨"startsWith", rfl, fun _ _ => rfl, rfl, by decide⟩

end ComparisonOperator

namespace Comparison

/-- **The operands of a comparison stay whole**: where the operator stands
between them, the left one binds no looser than it, and the right one
tighter. -/
def KeepsGrouping (c : Comparison) : Prop :=
  ∀ between, c.operator.between? = some between →
    c.left.Binds between.level ∧ ∀ right, c.right = some right → right.Binds (between.level + 1)

variable {c : Comparison} {l r : Expression} {level : Nat}

/-- Where no operator stands between them, the operands stay whole. -/
theorem keepsGrouping_of_between?_eq_none (h : c.operator.between? = none) : c.KeepsGrouping :=
  fun _ hsome => nomatch h.symm.trans hsome

/-- Where an operator stands between them, they are parsed at its level and the
next one. -/
theorem keepsGrouping_iff {right : Operand} {between : Operator} (hleft : c.left.Means l)
    (hsome : c.right = some right) (hright : right.Means r)
    (hbetween : c.operator.between? = some between) :
    c.KeepsGrouping ↔ Expression.Parses between.level c.left.render l ∧
      Expression.Parses (between.level + 1) right.render r := by
  have hlevel := between.level_lt_primary
  constructor
  · intro hkeeps
    obtain ⟨hbindsLeft, hbindsRight⟩ := hkeeps between hbetween
    exact ⟨hleft.parses_of_binds hbindsLeft (Nat.le_of_lt hlevel),
      hright.parses_of_binds (hbindsRight right hsome) hlevel⟩
  · rintro ⟨hparsesLeft, hparsesRight⟩ between' hbetween'
    obtain rfl := Option.some.inj (hbetween.symm.trans hbetween')
    refine ⟨hleft.binds hparsesLeft, fun right' hsome' => ?_⟩
    obtain rfl := Option.some.inj (hsome.symm.trans hsome')
    exact hright.binds hparsesRight

/-- Away from the operators between operands it is enough to parse the
application. -/
theorem exists_parse_of_applied (hnone : c.operator.between? = none)
    (h : Expression.Parses level c.render (c.operator.applied l r))
    (hlevel : level ≤ Expression.primary) :
    ∃ e, (∀ e', Expression.Parses 0 c.render e' ↔ e' = e) ∧
      (e = c.operator.applied l r ↔ c.KeepsGrouping) :=
  ⟨_, (h.mono (Nat.zero_le _) hlevel).iff_eq,
    iff_of_true rfl (keepsGrouping_of_between?_eq_none hnone)⟩

/-- **A comparison is parsed, by one expression.** It is the operator applied to
what the operands stand for if the operands stay whole, and only then. -/
theorem grouping_iff (hleft : c.left.Means l)
    (hright : c.operator.isUnary = false → ∃ right, c.right = some right ∧ right.Means r) :
    ∃ e, (∀ e', Expression.Parses 0 c.render e' ↔ e' = e) ∧
      (e = c.operator.applied l r ↔ c.KeepsGrouping) := by
  have hsome (hbinary : c.operator.isUnary = false) : ∃ right, c.right = some right :=
    (hright hbinary).imp fun _ h => h.1
  obtain ⟨hnegated, hhead⟩ := hleft.parses_negated
  have hnot := (hnegated.of_primary (Nat.le_succ _)).not hhead
  rcases render_cases c hsome with ⟨text, right, hmem, hsome, hrender⟩ |
    ⟨text, right, hmem, hsome, hrender⟩ | ⟨hoperator, hrender⟩ | ⟨hoperator, hrender⟩
  · -- the operator stands between the operands
    obtain ⟨right', hsome', hmeans⟩ := hright (isUnary_of_mem (List.mem_append_left methods hmem))
    obtain rfl := Option.some.inj (hsome.symm.trans hsome')
    obtain ⟨between, sign, hbetween, happlied, hspelt, hsign⟩ :=
      ComparisonOperator.exists_between_of_mem hmem
    obtain ⟨e, he, hiff⟩ := hleft.parses.between hmeans.parses hspelt hsign
    rw [hrender, happlied]
    exact ⟨e, he.iff_eq, hiff.trans (keepsGrouping_iff hleft hsome hmeans hbetween).symm⟩
  · -- the operands are arguments of calls
    obtain ⟨right', hsome', hmeans⟩ := hright (isUnary_of_mem (List.mem_append_right infixes hmem))
    obtain rfl := Option.some.inj (hsome.symm.trans hsome')
    obtain ⟨method, hnone, happlied, hspelt, hmethod⟩ :=
      ComparisonOperator.exists_method_of_mem hmem
    refine exists_parse_of_applied hnone ?_ (Nat.le_refl Expression.primary)
    rw [hrender, happlied]
    exact hleft.parses.method hmeans.parses hspelt hmethod
  · -- the operand stands behind exclamation marks
    refine exists_parse_of_applied (by rw [hoperator]; rfl) ?_ (Nat.le_succ Expression.negation)
    have htwice : "!!" ++ negated c.left = "!" ++ ("!" ++ negated c.left) := by
      rw [← String.append_assoc]
      rfl
    rw [hrender, hoperator, htwice]
    exact hnot.not (by simp)
  · refine exists_parse_of_applied (by rw [hoperator]; rfl) ?_ (Nat.le_succ Expression.negation)
    rw [hrender, hoperator]
    exact hnot

/-- A comparison of raw expressions that stay whole. -/
def grouped : Comparison :=
  ⟨.raw "a < f(b, 'x')", .equals, some (.raw "(c || d)")⟩

/-- The comparison is parsed as the operator applied to both. -/
theorem grouping_iff_grouped :
    Expression.Parses 0 grouped.render
      (.binary .equal (.binary .less (.name "a") (.call (.name "f") [.name "b", .text "'x'"]))
        (.binary .or (.name "c") (.name "d"))) := by
  have harguments : ∀ argument ∈ [([Token.word "b"], Expression.name "b"),
      ([Token.text "'x'"], Expression.text "'x'")],
      Expression.Derives 0 argument.1 argument.2 :=
    List.forall_mem_cons.mpr ⟨(Expression.Derives.name "b").of_primary (by decide),
      List.forall_mem_singleton.mpr ((Expression.Derives.text "'x'").of_primary (by decide))⟩
  have hless : Expression.Derives 3 _ _ :=
    .binary .less ((Expression.Derives.name "a").of_primary (by decide))
      (((Expression.Derives.name "f").call _ harguments).of_primary (by decide))
  have hor : Expression.Derives 0 _ _ :=
    .binary .or ((Expression.Derives.name "c").of_primary (by decide))
      ((Expression.Derives.name "d").of_primary (by decide))
  have hleft : Expression.Parses 3 "a < f(b, 'x')" _ := ⟨_, by decide, hless⟩
  have hright : Expression.Parses Expression.primary "(c || d)" _ :=
    ⟨_, by decide, hor.group⟩
  obtain ⟨e, hparses, hiff⟩ := grouping_iff (c := grouped)
    (hleft.mono (Nat.zero_le _) (by decide))
    fun _ => ⟨_, rfl, hright.of_primary (Nat.zero_le _)⟩
  refine (hparses _).mpr (hiff.mpr ?_).symm
  rintro between ⟨⟩
  refine ⟨⟨_, hleft.mono (by decide) (by decide)⟩, ?_⟩
  rintro right ⟨⟩
  exact ⟨_, hright.of_primary (by decide)⟩

/-- A comparison of a raw expression that binds looser than its operator. -/
def loose : Comparison :=
  ⟨.raw "a || b", .equals, some (.text "x")⟩

/-- **The operator takes a part of the raw expression**: what the comparison is
parsed as is not the operator applied to the operands. -/
theorem loose_not_applied :
    loose.left.Means (.binary .or (.name "a") (.name "b")) ∧
      loose.right = some (.text "x") ∧ (Operand.text "x").Means (.text "'x'") ∧
      Expression.Parses 0 loose.render
        (.binary .or (.name "a") (.binary .equal (.name "b") (.text "'x'"))) ∧
      ¬ Expression.Parses 0 loose.render
        (loose.operator.applied (.binary .or (.name "a") (.name "b")) (.text "'x'")) := by
  have ha : Expression.Derives 0 _ _ := (Expression.Derives.name "a").of_primary (by decide)
  have hor : Expression.Derives 0 _ _ :=
    .binary .or ha ((Expression.Derives.name "b").of_primary (by decide))
  have hequal : Expression.Derives 2 _ _ :=
    .binary .equal ((Expression.Derives.name "b").of_primary (by decide))
      ((Expression.Derives.text "'x'").of_primary (by decide))
  have hparsed : Expression.Parses 0 loose.render
      (.binary .or (.name "a") (.binary .equal (.name "b") (.text "'x'"))) :=
    ⟨_, by decide, .binary .or ha (hequal.mono (by decide) (by decide))⟩
  refine ⟨⟨_, by decide, hor⟩, rfl, rfl, hparsed, fun happlied => ?_⟩
  have hsame := hparsed.unique happlied
  cases hsame

end Comparison

end StepGraph
