import StepGraph.Kind.Config
import StepGraph.Proofs.Checks

/-!
# Conditions that come back from their values

Operands, comparisons and connectors are stored as values and decoded when a
node is compiled or edited. JSON has no number for NaN and the infinities, so
these are stored as `null`, which no operand is decoded from. All else comes
back as it was, to the bit: an operand whose number is finite
(`Operand.decode_toJson_eq_ok_iff`, and in a step
`Operand.decodeInStep_toJson_eq_ok_iff`), a comparison of such operands, whose
right one is left out when there is none (`Comparison.decode_toJson_eq_ok_iff`),
and lists of comparisons and connectors in the configuration of a conditional
(`ConditionalConfig.decode_eq_ok_iff`).
-/

namespace StepGraph

variable {operand operand' : Operand}

namespace Json

variable {α : Type}

/-- **A number is decoded where it is finite.** -/
theorem decodeBinary64_eq_ok_iff {x y : Binary64} :
    decodeBinary64 (ofBinary64 x) = .ok y ↔ x.isFinite = true ∧ y = x := by
  rw [ofBinary64]
  by_cases h : x.isFinite = true
  · rw [dif_pos h]
    simp [decodeBinary64, binary64?, h, eq_comm]
  · rw [dif_neg h]
    simp [decodeBinary64, binary64?, h]

/-- A list of values is decoded where each of them is. -/
theorem decodeList_map_eq_ok_iff {write : α → Json} {decode : Json → Except DecodeError α}
    {P : α → Prop} (h : ∀ a b, decode (write a) = .ok b ↔ P a ∧ b = a) {l l' : List α} :
    decodeList decode (.array (l.map write)) = .ok l' ↔ (∀ a ∈ l, P a) ∧ l' = l := by
  have hsame : ∀ a b, (decode ∘ write) a = .ok b → b = id a := fun a b hb => ((h a b).mp hb).2
  rw [decodeList, List.mapM_map, Checks.mapM_eq_ok_iff hsame, List.map_id, and_comm]
  refine and_congr_left' (forall₂_congr fun a _ => ?_)
  exact (h a a).trans (and_iff_left rfl)

end Json

/-! ## Operands -/

/-- An operand that is no number, or a finite one. -/
def Operand.IsFinite : Operand → Prop
  | number value => value.isFinite = true
  | _ => True

instance : DecidablePred Operand.IsFinite
  | .number value => inferInstanceAs (Decidable (value.isFinite = true))
  | .reference _ | .text _ | .raw _ => .isTrue trivial

namespace Operand

/-- The reader of an operand's type is handed its value, however types are
spelt otherwise. -/
theorem decodeWith_tagged {type head : Json → Except Json.DecodeError Reader}
    (htype : ∀ name, type (.string name) = Json.variant types name) {name : String}
    {read : Reader} (hread : types.lookup name = some read) (value : Json) :
    decodeWith type head (toJson.tagged name value) = read value := by
  have hvariant : type (.string name) = .ok read := by rw [htype, Json.variant, hread]
  have hpresent : Json.present [("type", .string name), ("value", value)] "type" type =
      .ok (some read) := by
    change some <$> type (.string name) = _
    rw [hvariant]
    rfl
  rw [toJson.tagged, decodeWith, hpresent]
  rfl

theorem decodeWith_toJson_eq_ok_iff {type head : Json → Except Json.DecodeError Reader}
    (htype : ∀ name, type (.string name) = Json.variant types name) :
    decodeWith type head operand.toJson = .ok operand' ↔
      operand.IsFinite ∧ operand' = operand := by
  have htext {x : Operand} (hx : x.IsFinite) :
      Except.ok (ε := Json.DecodeError) x = .ok operand' ↔ x.IsFinite ∧ operand' = x := by
    rw [Except.ok.injEq, eq_comm, and_iff_right hx]
  cases operand with
  | reference name =>
    rw [toJson, decodeWith_tagged htype rfl]
    exact htext trivial
  | text value =>
    rw [toJson, decodeWith_tagged htype rfl]
    exact htext trivial
  | number value =>
    rw [toJson, decodeWith_tagged htype rfl, Checks.map_eq_ok_iff]
    simp only [Json.decodeBinary64_eq_ok_iff]
    constructor
    · rintro ⟨_, ⟨h, rfl⟩, rfl⟩
      exact ⟨h, rfl⟩
    · rintro ⟨h, rfl⟩
      exact ⟨value, ⟨h, rfl⟩, rfl⟩
  | raw expression =>
    rw [toJson, decodeWith_tagged htype rfl]
    exact htext trivial

/-- **An operand is decoded where it is finite.** -/
theorem decode_toJson_eq_ok_iff :
    decode operand.toJson = .ok operand' ↔ operand.IsFinite ∧ operand' = operand :=
  decodeWith_toJson_eq_ok_iff fun _ => rfl

/-- **So it is inside a step**, where types have more spellings. -/
theorem decodeInStep_toJson_eq_ok_iff :
    decodeInStep operand.toJson = .ok operand' ↔ operand.IsFinite ∧ operand' = operand :=
  decodeWith_toJson_eq_ok_iff fun _ => rfl

end Operand

/-! ## Operators and connectors -/

theorem ComparisonOperator.decode_name (operator : ComparisonOperator) :
    decode (.string operator.name) = .ok operator := by
  cases operator <;> rfl

theorem Connector.decode_name (connector : Connector) :
    decode (.string connector.name) = .ok connector := by
  cases connector <;> rfl

/-- **A list of connectors is decoded.** -/
theorem Connector.decodeList_eq_ok_iff {connectors read : List Connector} :
    Json.decodeList decode (.array (connectors.map fun c => .string c.name)) = .ok read ↔
      read = connectors := by
  have hone (c c' : Connector) : decode (.string c.name) = .ok c' ↔ True ∧ c' = c := by
    rw [decode_name, Except.ok.injEq, eq_comm, true_and]
  rw [Json.decodeList_map_eq_ok_iff hone, and_iff_right fun _ _ => trivial]

/-! ## Comparisons -/

/-- All numbers in a comparison are finite. -/
def Comparison.IsFinite (c : Comparison) : Prop :=
  c.left.IsFinite ∧ ∀ operand ∈ c.right, operand.IsFinite

instance (c : Comparison) : Decidable c.IsFinite :=
  inferInstanceAs (Decidable (_ ∧ _))

namespace Comparison

variable {c c' : Comparison}

/-- The right operand is decoded where it is finite, and it is not there when
there is none. -/
theorem present_right_eq_ok_iff {members : List (String × Json)}
    (hmembers : c.toJson = .object members) {right : Option (Option Operand)} :
    Json.present members "right" (Json.decodeOption Operand.decode) = .ok right ↔
      (∀ operand ∈ c.right, operand.IsFinite) ∧ right = c.right.map some := by
  obtain ⟨left, operator, written⟩ := c
  cases hmembers
  cases written with
  | none =>
    change Except.ok none = Except.ok right ↔ _
    simp [eq_comm]
  | some operand =>
    have hnull : Json.decodeOption Operand.decode operand.toJson =
        some <$> Operand.decode operand.toJson := by
      cases operand <;> rfl
    change some <$> Json.decodeOption Operand.decode operand.toJson = Except.ok right ↔ _
    rw [hnull]
    simp only [Checks.map_eq_ok_iff, Operand.decode_toJson_eq_ok_iff]
    constructor
    · rintro ⟨_, ⟨_, ⟨h, rfl⟩, rfl⟩, rfl⟩
      exact ⟨fun other hother => Option.some.inj hother ▸ h, rfl⟩
    · rintro ⟨h, rfl⟩
      exact ⟨_, ⟨_, ⟨h operand rfl, rfl⟩, rfl⟩, rfl⟩

/-- **A comparison is decoded where it is finite.** -/
theorem decode_toJson_eq_ok_iff :
    decode c.toJson = .ok c' ↔ c.IsFinite ∧ c' = c := by
  obtain ⟨members, hmembers⟩ : ∃ members, c.toJson = .object members := ⟨_, rfl⟩
  have hleft : Json.present members "left" Operand.decode =
      some <$> Operand.decode c.left.toJson := by
    cases hmembers
    rfl
  have hoperator : Json.present members "operator" ComparisonOperator.decode =
      some <$> ComparisonOperator.decode (.string c.operator.name) := by
    cases hmembers
    rfl
  have hjoin : (c.right.map some).join = c.right := by cases c.right <;> rfl
  rw [hmembers, decode, hleft, hoperator, ComparisonOperator.decode_name]
  simp only [Checks.bind_eq_ok_iff, Checks.map_eq_ok_iff, Operand.decode_toJson_eq_ok_iff,
    present_right_eq_ok_iff hmembers, Checks.pure_eq_ok_iff]
  constructor
  · rintro ⟨_, ⟨_, ⟨h, rfl⟩, rfl⟩, _, ⟨_, ⟨⟩, rfl⟩, _, ⟨h', rfl⟩, _, ⟨⟩, _, ⟨⟩, rfl⟩
    exact ⟨⟨h, h'⟩, by rw [hjoin]⟩
  · rintro ⟨⟨h, h'⟩, rfl⟩
    exact ⟨_, ⟨_, ⟨h, rfl⟩, rfl⟩, _, ⟨_, rfl, rfl⟩, _, ⟨h', rfl⟩, _, rfl, _, rfl, by rw [hjoin]⟩

/-- **A list of comparisons is decoded** where each of them is finite. -/
theorem decodeList_eq_ok_iff {comparisons read : List Comparison} :
    Json.decodeList decode (.array (comparisons.map toJson)) = .ok read ↔
      (∀ c ∈ comparisons, c.IsFinite) ∧ read = comparisons :=
  Json.decodeList_map_eq_ok_iff fun _ _ => decode_toJson_eq_ok_iff

end Comparison

/-- **The configuration of a conditional** with these comparisons and
connectors is decoded where all numbers are finite, whatever else it holds. -/
theorem ConditionalConfig.decode_eq_ok_iff {members : List (String × Json)}
    {comparisons : List Comparison} {connectors : List Connector} {config : ConditionalConfig}
    (hcomparisons :
      members.lookup "comparisons" = some (.array (comparisons.map Comparison.toJson)))
    (hconnectors :
      members.lookup "connectors" = some (.array (connectors.map fun c => .string c.name))) :
    decode (.object members) = .ok config ↔
      (∀ c ∈ comparisons, c.IsFinite) ∧ config = ⟨comparisons, connectors⟩ := by
  rw [decode, Json.present, hcomparisons, Json.present, hconnectors]
  simp only [Checks.bind_eq_ok_iff, Checks.map_eq_ok_iff, Comparison.decodeList_eq_ok_iff,
    Connector.decodeList_eq_ok_iff, Checks.pure_eq_ok_iff]
  constructor
  · rintro ⟨_, ⟨_, ⟨h, rfl⟩, rfl⟩, _, ⟨_, rfl, rfl⟩, _, ⟨⟩, rfl⟩
    exact ⟨h, rfl⟩
  · rintro ⟨h, rfl⟩
    exact ⟨_, ⟨_, ⟨h, rfl⟩, rfl⟩, _, ⟨_, rfl, rfl⟩, _, rfl, rfl⟩

end StepGraph
