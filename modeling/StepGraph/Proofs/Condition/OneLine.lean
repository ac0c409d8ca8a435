import StepGraph.Condition.Comparison
import StepGraph.Proofs.Text.Digits
import StepGraph.Proofs.Text.Quoted

/-!
# Conditions on one line

Numbers are written with a few characters only (`Text.inNumber`), texts
without a line feed. So a condition or an operand takes one line of a script
when what it takes over as it is, names of variables and raw expressions, has
no line feed.
-/

namespace StepGraph

/-! ## Numbers -/

/-- The characters that numbers are written with: digits, the minus sign, the
point, and the letters of infinity and NaN. -/
def Text.inNumber (c : Char) : Bool :=
  c.isAlphanum || c == '-' || c == '.'

theorem Text.inNumber_digits (n : Nat) :
    ∀ c ∈ (Text.toDigits 10 n).map Text.digitChar, Text.inNumber c = true := by
  intro c hc
  obtain ⟨digit, hdigit, rfl⟩ := List.mem_map.mp hc
  have hchar := Text.isDigit_digitChar (Text.lt_of_mem_toDigits (by decide) hdigit)
  simp [Text.inNumber, Char.isAlphanum, hchar]

theorem Text.inNumber_natText (n : Nat) :
    ∀ c ∈ (Text.natText n).toList, Text.inNumber c = true := by
  rw [Text.natText, String.toList_ofList]
  exact Text.inNumber_digits n

theorem Text.inNumber_intText (n : Int) :
    ∀ c ∈ (Text.intText n).toList, Text.inNumber c = true := by
  have hnat := Text.inNumber_natText n.natAbs
  rw [Text.intText]
  split
  · rw [String.toList_append]
    exact List.forall_mem_append.mpr ⟨List.all_eq_true.mp (by decide), hnat⟩
  · exact hnat

/-- What is laid out by position has no characters of its own but zeros and
a point. -/
theorem Binary64.inNumber_positional (form : Binary64.Notation) {digits : List Char}
    (h : ∀ c ∈ digits, Text.inNumber c = true) (exponent : Int) :
    ∀ c ∈ form.positional digits exponent, Text.inNumber c = true := by
  have hzeros (n : Nat) : ∀ c ∈ List.replicate n '0', Text.inNumber c = true := by
    intro c hc
    rw [List.eq_of_mem_replicate hc]
    decide
  rw [Binary64.Notation.positional]
  split
  · have hpadded := List.forall_mem_append.mpr
      ⟨hzeros (exponent.natAbs + 1 - digits.length), h⟩
    rw [Binary64.pointed]
    refine List.forall_mem_append.mpr ⟨fun c hc => hpadded c (List.mem_of_mem_take hc),
      List.forall_mem_cons.mpr ⟨by decide, fun c hc => hpadded c (List.mem_of_mem_drop hc)⟩⟩
  · refine List.forall_mem_append.mpr ⟨List.forall_mem_append.mpr ⟨h, hzeros _⟩, ?_⟩
    split <;> exact List.all_eq_true.mp (by decide)

/-- A number in a script is written with such characters. -/
theorem Binary64.inNumber_scriptNotation (x : Binary64) :
    ∀ c ∈ (Binary64.scriptNotation.render x).toList, Text.inNumber c = true := by
  have hmagnitude : ∀ c ∈ Binary64.scriptNotation.magnitude x, Text.inNumber c = true := by
    rw [Binary64.Notation.magnitude]
    split
    · exact Binary64.inNumber_positional _ (List.all_eq_true.mp (by decide)) 0
    · exact Binary64.inNumber_positional _ (Text.inNumber_digits _) _
  rw [Binary64.Notation.render]
  split
  · exact List.all_eq_true.mp (by decide)
  · rw [String.toList_append]
    refine List.forall_mem_append.mpr ⟨?_, ?_⟩
    · split <;> exact List.all_eq_true.mp (by decide)
    · split
      · exact List.all_eq_true.mp (by decide)
      · rw [String.toList_ofList]
        exact hmagnitude

theorem Operand.inNumber_numberText (x : Binary64) :
    ∀ c ∈ (Operand.numberText x).toList, Text.inNumber c = true := by
  have hnumber := Binary64.inNumber_scriptNotation x
  rw [Operand.numberText]
  split
  · split
    · exact Text.inNumber_intText _
    · exact hnumber
  · exact hnumber

/-! ## Operands and conditions -/

/-- An operand whose own text, where it stands in the script as it is, has
no line feed. -/
def Operand.OneLine : Operand → Prop
  | .reference name => '\n' ∉ name.toList
  | .raw expression => '\n' ∉ expression.toList
  | _ => True

instance : DecidablePred Operand.OneLine
  | .reference name => inferInstanceAs (Decidable ('\n' ∉ name.toList))
  | .text _ => inferInstanceAs (Decidable True)
  | .number _ => inferInstanceAs (Decidable True)
  | .raw expression => inferInstanceAs (Decidable ('\n' ∉ expression.toList))

/-- A comparison of such operands. -/
def Comparison.OneLine (c : Comparison) : Prop :=
  c.left.OneLine ∧ ∀ right, c.right = some right → right.OneLine

theorem Operand.newline_not_mem_render {operand : Operand} (h : operand.OneLine) :
    '\n' ∉ operand.render.toList := by
  cases operand with
  | reference name => exact h
  | text value => exact Text.newline_not_mem_quote value
  | number value =>
    exact fun h => absurd (Operand.inNumber_numberText value _ h) (by decide)
  | raw expression => exact h

theorem Comparison.newline_not_mem_render {c : Comparison} (h : c.OneLine) :
    '\n' ∉ c.render.toList := by
  obtain ⟨hleft, hright⟩ := h
  have hl := Operand.newline_not_mem_render hleft
  have hr : '\n' ∉ c.rightText.toList := by
    rw [Comparison.rightText]
    split
    · exact Operand.newline_not_mem_render (hright _ ‹_›)
    · decide
  have hnegated : '\n' ∉ (Comparison.negated c.left).toList := by
    rw [Comparison.negated.eq_def]
    split
    · rename_i expression hraw
      rw [hraw] at hl
      simpa [String.toList_append, Operand.render] using hl
    · exact hl
  rw [Comparison.render]
  cases c.operator <;> simp [String.toList_append, hl, hr, hnegated]

theorem newline_not_mem_renderFurther {comparisons : List Comparison}
    (h : ∀ c ∈ comparisons, c.OneLine) (connectors : List Connector) :
    '\n' ∉ (renderFurther comparisons connectors).toList := by
  induction comparisons generalizing connectors with
  | nil => rw [renderFurther]; decide
  | cons c comparisons ih =>
    obtain ⟨hc, hrest⟩ := List.forall_mem_cons.mp h
    have hone := Comparison.newline_not_mem_render hc
    cases connectors with
    | nil =>
      rw [renderFurther]
      simp [String.toList_append, hone, ih hrest]
    | cons connector connectors =>
      have hsymbol : '\n' ∉ connector.symbol.toList := by cases connector <;> decide
      rw [renderFurther]
      simp [String.toList_append, hone, hsymbol, ih hrest]

/-- **A condition takes one line**, where its comparisons do. -/
theorem newline_not_mem_renderCondition {comparisons : List Comparison}
    (h : ∀ c ∈ comparisons, c.OneLine) (connectors : List Connector) :
    '\n' ∉ (renderCondition comparisons connectors).toList := by
  cases comparisons with
  | nil => rw [renderCondition]; decide
  | cons c comparisons =>
    obtain ⟨hc, hrest⟩ := List.forall_mem_cons.mp h
    rw [renderCondition]
    simp [String.toList_append, Comparison.newline_not_mem_render hc,
      newline_not_mem_renderFurther hrest]

end StepGraph
