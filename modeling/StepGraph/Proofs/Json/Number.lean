import StepGraph.Json.Reader
import StepGraph.Proofs.Text.Digits

/-!
# Literals are read back

A number is spelt as a literal: the sign, digits before and behind the point,
and an exponent. The reader finds every literal that JSON allows again,
whatever follows that is no part of a number (`readNumber_spelling`). Each
reader takes its part and leaves the rest, which begins with no character
that the part could go on with.
-/

namespace StepGraph.Json

open Text (digitChar)

/-! ## Spelling literals -/

namespace NumberLiteral

/-- The characters of the digits behind the point, with the point. -/
def fractionText : Option (List Nat) → List Char
  | none => []
  | some places => '.' :: places.map digitChar

/-- The characters of an exponent; a positive one has a plus sign. -/
def exponentText : Option Int → List Char
  | none => []
  | some exponent =>
    'e' :: ((if 0 ≤ exponent then ['+'] else []) ++ (Text.intText exponent).toList)

/-- The characters of a literal. -/
def spelling (l : NumberLiteral) : List Char :=
  (if l.negative then ['-'] else []) ++
    (l.whole.map digitChar ++ (fractionText l.fraction ++ exponentText l.exponent))

/-- **A literal that JSON allows**: decimal digits on both sides of the point,
at least one, and no zero before others. -/
structure WellSpelt (l : NumberLiteral) : Prop where
  whole_ne_nil : l.whole ≠ []
  whole_lt : ∀ digit ∈ l.whole, digit < 10
  no_leading_zero : ∀ digit rest, l.whole ≠ 0 :: digit :: rest
  places_ne_nil : ∀ places, l.fraction = some places → places ≠ []
  places_lt : ∀ places, l.fraction = some places → ∀ digit ∈ places, digit < 10

end NumberLiteral

/-- What follows is no part of a number. -/
def EndsNumber (rest : List Char) : Prop :=
  ∀ c ∈ rest.head?, c.isDigit = false ∧ c ≠ '.' ∧ c ≠ 'e' ∧ c ≠ 'E'

/-! ## Reading literals -/

variable {rest : List Char} {digits : List Nat}

/-- As many digits are read as there are. -/
theorem readDigits_append (hdigits : ∀ digit ∈ digits, digit < 10)
    (hrest : ∀ c ∈ rest.head?, c.isDigit = false) :
    readDigits (digits.map digitChar ++ rest) = (digits, rest) := by
  have hall : ∀ c ∈ digits.map digitChar, c.isDigit = true := by
    intro c hc
    obtain ⟨digit, hdigit, rfl⟩ := List.mem_map.mp hc
    exact Text.isDigit_digitChar (hdigits digit hdigit)
  have hstop : rest.takeWhile Char.isDigit = [] ∧ rest.dropWhile Char.isDigit = rest := by
    cases rest with
    | nil => exact ⟨rfl, rfl⟩
    | cons c rest =>
      have hc := hrest c rfl
      exact ⟨List.takeWhile_cons_of_neg (by simp [hc]), List.dropWhile_cons_of_neg (by simp [hc])⟩
  have hvalues : (digits.map digitChar).map Text.digitValue = digits := by
    rw [List.map_map]
    conv_rhs => rw [← List.map_id digits]
    exact List.map_congr_left fun digit hdigit => Text.digitValue_digitChar (hdigits digit hdigit)
  rw [readDigits, List.takeWhile_append_of_pos hall, List.dropWhile_append_of_pos hall, hstop.1,
    hstop.2, List.append_nil, hvalues]

theorem readWhole_append (hnil : digits ≠ []) (hdigits : ∀ digit ∈ digits, digit < 10)
    (hzero : ∀ digit more, digits ≠ 0 :: digit :: more)
    (hrest : ∀ c ∈ rest.head?, c.isDigit = false) :
    readWhole (digits.map digitChar ++ rest) = some (digits, rest) := by
  rw [readWhole, readDigits_append hdigits hrest]
  split
  · rename_i h
    cases h
    exact absurd rfl hnil
  · rename_i h
    cases h
    exact absurd rfl (hzero _ _)
  · rfl

/-- What ends a number ends its digits. -/
theorem EndsNumber.not_isDigit (h : EndsNumber rest) : ∀ c ∈ rest.head?, c.isDigit = false :=
  fun c hc => (h c hc).1

theorem readFraction_append {fraction : Option (List Nat)}
    (hnil : ∀ places, fraction = some places → places ≠ [])
    (hplaces : ∀ places, fraction = some places → ∀ digit ∈ places, digit < 10)
    (hrest : ∀ c ∈ rest.head?, c.isDigit = false) (hpoint : ∀ c ∈ rest.head?, c ≠ '.') :
    readFraction (NumberLiteral.fractionText fraction ++ rest) = some (fraction, rest) := by
  cases fraction with
  | none =>
    rw [NumberLiteral.fractionText, List.nil_append]
    cases rest with
    | nil => rfl
    | cons c rest =>
      unfold readFraction
      split
      · rename_i h
        cases h
        exact absurd rfl (hpoint _ rfl)
      · rfl
  | some places =>
    change readFraction ('.' :: (places.map digitChar ++ rest)) = _
    rw [readFraction, readDigits_append (hplaces places rfl) hrest]
    split
    · rename_i h
      cases h
      exact absurd rfl (hnil _ rfl)
    · rename_i h
      cases h
      rfl

theorem readExponentDigits_natText (negative : Bool) (n : Nat)
    (hrest : ∀ c ∈ rest.head?, c.isDigit = false) :
    readExponentDigits negative ((Text.natText n).toList ++ rest) =
      some (some (if negative then -(n : ℤ) else n), rest) := by
  have hbase : 1 < 10 := by decide
  rw [readExponentDigits, Text.natText, String.toList_ofList,
    readDigits_append (fun _ => Text.lt_of_mem_toDigits hbase) hrest]
  split
  · rename_i h
    exact absurd (congrArg Prod.fst h) (Text.toDigits_ne_nil hbase n)
  · rename_i h
    cases h
    rw [Text.ofDigits_toDigits hbase]

theorem readExponent_plus (cs : List Char) :
    readExponent ('e' :: '+' :: cs) = readExponentDigits false cs := by
  simp [readExponent]

theorem readExponent_minus (cs : List Char) :
    readExponent ('e' :: '-' :: cs) = readExponentDigits true cs := by
  simp [readExponent]

theorem readExponent_append (exponent : Option Int)
    (hrest : ∀ c ∈ rest.head?, c.isDigit = false) (he : ∀ c ∈ rest.head?, c ≠ 'e' ∧ c ≠ 'E') :
    readExponent (NumberLiteral.exponentText exponent ++ rest) = some (exponent, rest) := by
  cases exponent with
  | none =>
    rw [NumberLiteral.exponentText, List.nil_append]
    cases rest with
    | nil => rfl
    | cons c rest =>
      obtain ⟨hsmall, hlarge⟩ := he c rfl
      simp [readExponent, hsmall, hlarge]
  | some exponent =>
    rw [NumberLiteral.exponentText, List.cons_append, Text.intText]
    by_cases hneg : 0 ≤ exponent
    · have hdigits := readExponentDigits_natText false exponent.natAbs hrest
      rw [if_neg Bool.false_ne_true, Int.natAbs_of_nonneg hneg] at hdigits
      rw [if_pos hneg, if_neg (not_lt.mpr hneg), List.append_assoc, List.singleton_append,
        readExponent_plus, hdigits]
    · have hlt := not_le.mp hneg
      have hminus : ("-" ++ Text.natText exponent.natAbs).toList =
          '-' :: (Text.natText exponent.natAbs).toList := String.toList_append
      have hdigits := readExponentDigits_natText true exponent.natAbs hrest
      rw [if_pos rfl, Int.ofNat_natAbs_of_nonpos hlt.le, neg_neg] at hdigits
      rw [if_neg hneg, if_pos hlt, List.nil_append, hminus, List.cons_append, readExponent_minus,
        hdigits]

/-- **A well-spelt literal is read back**, up to what ends it. -/
theorem readNumber_spelling {l : NumberLiteral} (h : l.WellSpelt) (hrest : EndsNumber rest) :
    readNumber (l.spelling ++ rest) = some (.number l, rest) := by
  obtain ⟨negative, whole, fraction, exponent⟩ := l
  have hexponent : ∀ c ∈ (NumberLiteral.exponentText exponent ++ rest).head?,
      c.isDigit = false ∧ c ≠ '.' := by
    cases exponent with
    | none => exact fun c hc => ⟨(hrest c hc).1, (hrest c hc).2.1⟩
    | some e =>
      rintro c ⟨⟩
      decide
  have hfraction : ∀ c ∈ (NumberLiteral.fractionText fraction ++
      (NumberLiteral.exponentText exponent ++ rest)).head?, c.isDigit = false := by
    cases fraction with
    | none => exact fun c hc => (hexponent c hc).1
    | some places =>
      rintro c ⟨⟩
      decide
  have hmagnitude : readMagnitude negative (whole.map digitChar ++
      (NumberLiteral.fractionText fraction ++ (NumberLiteral.exponentText exponent ++ rest))) =
        some (.number ⟨negative, whole, fraction, exponent⟩, rest) := by
    have hreadWhole := readWhole_append h.whole_ne_nil h.whole_lt h.no_leading_zero hfraction
    have hreadFraction := readFraction_append h.places_ne_nil h.places_lt
      (fun c hc => (hexponent c hc).1) fun c hc => (hexponent c hc).2
    have hreadExponent := readExponent_append exponent hrest.not_isDigit
      fun c hc => (hrest c hc).2.2
    dsimp only at hreadWhole hreadFraction
    simp only [readMagnitude, hreadWhole, hreadFraction, hreadExponent, Option.bind_eq_bind,
      Option.bind_some]
    rfl
  rw [NumberLiteral.spelling, List.append_assoc, List.append_assoc, List.append_assoc]
  cases negative with
  | true => exact hmagnitude
  | false =>
    -- the first digit is no minus sign
    obtain ⟨digit, more, rfl⟩ := List.exists_cons_of_ne_nil h.whole_ne_nil
    have hminus : digitChar digit ≠ '-' := Text.digitChar_ne (by decide) (by decide) digit
    rw [if_neg Bool.false_ne_true, List.nil_append]
    rw [List.map_cons, List.cons_append] at hmagnitude ⊢
    unfold readNumber
    split
    · rename_i h
      exact absurd (List.cons.inj h).1 hminus
    · exact hmagnitude

end StepGraph.Json
