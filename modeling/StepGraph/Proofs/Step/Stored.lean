import StepGraph.Proofs.Condition.Stored
import StepGraph.Step.Config

/-!
# Steps that come back from their configurations

A step is stored as the configuration of its node, to be edited again later.
Each of its parts is read as what was written: texts and outputs, headers in
their order (`Headers.ofJson?_toJson`), a method by its name, seconds of 32
bits (`Json.seconds?_ofNat`), and a part that is not there as `null`
(`Json.optional?_ofOption`). So a step comes back where the number in its
operand is finite, if there is one (`Step.ofJson?_toJson_eq_some_iff`); one
that is not is stored as `null`, and such a step is not read at all.
-/

namespace StepGraph

/-! ## Parts of steps -/

namespace Json

/-- A natural number is found again where 64 bits hold it. -/
theorem natural?_ofNat {n : Nat} (h : n < UInt64.size) : (ofNat n).natural? = some n := by
  rw [ofNat, ofInt, dif_pos (fitsInteger_natCast_iff.mpr h), natural?,
    if_pos (Int.natCast_nonneg n), Int.toNat_natCast]

theorem seconds?_ofNat (seconds : UInt32) : (ofNat seconds.toNat).seconds? = some seconds := by
  have hlt : seconds.toNat < UInt32.size := seconds.toNat_lt
  have hfits : seconds.toNat < UInt64.size := Nat.lt_trans hlt (by decide)
  rw [seconds?, natural?_ofNat hfits, Option.bind_eq_bind, Option.bind_some, if_pos hlt,
    Nat.toUInt32_eq, UInt32.ofNat_toNat]

/-- What may be absent is read where what is there is, as long as nothing that
is there is written as `null`. -/
theorem optional?_ofOption {α : Type} (write : α → Json) {read : Json → Option α}
    (hnull : ∀ a, write a ≠ .null) (hread : ∀ a, read (write a) = some a) (value : Option α) :
    optional? read (some (ofOption write value)) = some value := by
  cases value with
  | none => rfl
  | some a =>
    rw [ofOption, optional?, hread]
    · rfl
    · exact fun h => hnull a h

theorem optional?_text (text : Option String) :
    optional? string? (some (ofOption .string text)) = some text :=
  optional?_ofOption .string (fun _ h => (by cases h)) (fun _ => rfl) text

end Json

theorem Output.ofJson?_toJson (output : Output) : ofJson? output.toJson = some output := rfl

theorem HttpMethod.ofJson?_name (method : HttpMethod) :
    ofJson? (.string method.name) = some method := by
  cases method <;> rfl

/-- **Headers come back**: they are sorted, so reading puts them where they
were. -/
theorem Headers.ofJson?_toJson (headers : Headers) : ofJson? headers.toJson = some headers := by
  have hread : (headers.entries.map fun entry => (entry.1, Json.string entry.2)).mapM
      (fun entry => entry.2.string?.map (entry.1, ·)) = some headers.entries := by
    rw [List.mapM_map]
    exact Checks.mapM_some headers.entries
  calc ofJson? headers.toJson = some (ofList headers.entries) :=
        congrArg (·.bind fun entries => some (ofList entries)) hread
    _ = some headers := by rw [ofList_entries]

/-- **An operand inside a step is read where it is finite.** -/
theorem Operand.ofJson?_toJson_eq_some_iff {operand operand' : Operand} :
    ofJson? operand.toJson = some operand' ↔ operand.IsFinite ∧ operand' = operand := by
  rw [← decodeInStep_toJson_eq_ok_iff, ofJson?]
  cases decodeInStep operand.toJson <;> simp [Except.toOption]

/-! ## Steps -/

namespace Step

/-- The number in a step's operand is finite, if there is one. -/
def IsFinite : Step → Prop
  | setVariable _ value => value.IsFinite
  | storeValue _ value => value.IsFinite
  | _ => True

instance : DecidablePred IsFinite
  | setVariable _ value | storeValue _ value => inferInstanceAs (Decidable value.IsFinite)
  | sendText _ | sendMedia _ _ | httpRequest _ _ _ _ _ | queryAssistant _ _ _ | loadValue _ _
  | wait _ | script _ => .isTrue trivial

theorem ofJson?_sendMedia (url : String) (caption : Option String) :
    ofJson? (sendMedia url caption).toJson = some (sendMedia url caption) := by
  change (do some (sendMedia url
    (← Json.optional? Json.string? (some (.ofOption .string caption))))) = _
  rw [Json.optional?_text]
  rfl

theorem ofJson?_httpRequest (method : HttpMethod) (url : String) (headers : Headers)
    (body : Option String) (output : Option Output) :
    ofJson? (httpRequest method url headers body output).toJson =
      some (httpRequest method url headers body output) := by
  have houtput : Json.optional? Output.ofJson? (some (.ofOption Output.toJson output)) =
      some output :=
    Json.optional?_ofOption Output.toJson (fun _ h => (by cases h)) Output.ofJson?_toJson output
  change (do
    let headers ← Headers.ofJson? headers.toJson
    some (httpRequest (← HttpMethod.ofJson? (.string method.name)) url headers
      (← Json.optional? Json.string? (some (.ofOption .string body)))
      (← Json.optional? Output.ofJson? (some (.ofOption Output.toJson output))))) = _
  rw [Headers.ofJson?_toJson, HttpMethod.ofJson?_name, Json.optional?_text, houtput]
  rfl

theorem ofJson?_wait (seconds : UInt32) :
    ofJson? (wait seconds).toJson = some (wait seconds) := by
  have hread (value : Json) : ofJson? (.object [("seconds", value), ("step", .string "wait")]) =
      value.seconds?.bind fun seconds => some (wait seconds) := rfl
  rw [toJson, hread, Json.seconds?_ofNat, Option.bind_some]

/-- **A step is read where it is finite.** -/
theorem ofJson?_toJson_eq_some_iff {step step' : Step} :
    ofJson? step.toJson = some step' ↔ step.IsFinite ∧ step' = step := by
  have hplain {step : Step} (h : ofJson? step.toJson = some step) (hfinite : step.IsFinite) :
      ofJson? step.toJson = some step' ↔ step.IsFinite ∧ step' = step := by
    rw [h, Option.some_inj, eq_comm, and_iff_right hfinite]
  have hoperand {value : Operand} {build : Operand → Step} :
      (Operand.ofJson? value.toJson >>= fun value => some (build value)) = some step' ↔
        value.IsFinite ∧ step' = build value := by
    simp only [Option.bind_eq_bind, Option.bind_eq_some_iff, Operand.ofJson?_toJson_eq_some_iff]
    constructor
    · rintro ⟨_, ⟨h, rfl⟩, ⟨⟩⟩
      exact ⟨h, rfl⟩
    · rintro ⟨h, rfl⟩
      exact ⟨value, ⟨h, rfl⟩, rfl⟩
  cases step with
  | sendText text => exact hplain rfl trivial
  | sendMedia url caption => exact hplain (ofJson?_sendMedia url caption) trivial
  | httpRequest method url headers body output =>
    exact hplain (ofJson?_httpRequest method url headers body output) trivial
  | queryAssistant assistant prompt output => exact hplain rfl trivial
  | setVariable output value => exact hoperand
  | storeValue key value => exact hoperand
  | loadValue key output => exact hplain rfl trivial
  | wait seconds => exact hplain (ofJson?_wait seconds) trivial
  | script code => exact hplain rfl trivial

/-- A step is the configuration of its payload. -/
theorem config_of_payload {step : Step} {vars : VariableTable} {assistants : AssistantTable}
    {payload : Payload} (h : step.payload vars assistants = .ok payload) :
    payload.config = step.toJson := by
  obtain ⟨code, -, hcode⟩ := Checks.bind_eq_ok_iff.mp h
  rw [← Checks.pure_eq_ok_iff.mp hcode]

end Step

/-! ## Configurations -/

/-- **What is stored is read as what it was**, where all numbers are finite and
only there: a step from the value that its payload holds, and the comparisons
and connectors of a conditional from the two arrays in its configuration. -/
theorem stored_reads_back_iff (step : Step) (comparisons : List Comparison)
    (connectors : List Connector) :
    let comparisonsJson := Json.array (comparisons.map Comparison.toJson)
    let connectorsJson := Json.array (connectors.map fun c => .string c.name)
    (∀ step', Step.ofJson? step.toJson = some step' ↔ step.IsFinite ∧ step' = step) ∧
      (∀ vars assistants payload, step.payload vars assistants = .ok payload →
        payload.config = step.toJson) ∧
      (∀ read, Json.decodeList Comparison.decode comparisonsJson = .ok read ↔
        (∀ c ∈ comparisons, c.IsFinite) ∧ read = comparisons) ∧
      (∀ read, Json.decodeList Connector.decode connectorsJson = .ok read ↔ read = connectors) ∧
      ∀ members : List (String × Json), members.lookup "comparisons" = some comparisonsJson →
        members.lookup "connectors" = some connectorsJson →
        ∀ config, ConditionalConfig.decode (.object members) = .ok config ↔
          (∀ c ∈ comparisons, c.IsFinite) ∧ config = ⟨comparisons, connectors⟩ :=
  ⟨fun _ => Step.ofJson?_toJson_eq_some_iff, fun _ _ _ => Step.config_of_payload,
    fun _ => Comparison.decodeList_eq_ok_iff, fun _ => Connector.decodeList_eq_ok_iff,
    fun _ hcomparisons hconnectors _ =>
      ConditionalConfig.decode_eq_ok_iff hcomparisons hconnectors⟩

/-- A step that sets a variable to the negative zero, which the script writes
without its sign, and a conditional without a right operand in one of its
comparisons. -/
theorem stored_reads_back_withNegativeZero :
    let step := Step.setVariable ⟨"rate", "Rate"⟩ (.number Binary64.zero.neg)
    let absent : Comparison := ⟨.reference "rate", .isAbsent, none⟩
    let below : Comparison := ⟨.number ⟨0x3fb999999999999a⟩, .lessThan, some (.raw "a || b")⟩
    let members := [("comparisons", Json.array [absent.toJson, below.toJson]),
      ("connectors", .array [.string "or"]), ("note", .null)]
    ∃ payload, step.payload .empty .empty = .ok payload ∧ payload.code = ["var rate = 0;\n"] ∧
      Step.ofJson? payload.config = some step ∧
      ConditionalConfig.decode (.object members) = .ok ⟨[absent, below], [.or]⟩ := by
  intro step absent below members
  obtain ⟨hstep, hconfig, -, -, hconditional⟩ :=
    stored_reads_back_iff step [absent, below] [.or]
  have hnumber : Operand.numberText Binary64.zero.neg = "0" := by decide +kernel
  have hpayload : step.payload .empty .empty = .ok ⟨"Set Rate",
      [Step.declare ⟨"rate", "Rate"⟩ (Operand.numberText Binary64.zero.neg)], step.toJson⟩ := rfl
  refine ⟨_, hpayload, by rw [hnumber]; rfl, ?_, ?_⟩
  · rw [hconfig _ _ _ hpayload, hstep]
    exact ⟨by decide, rfl⟩
  · rw [hconditional members rfl rfl]
    exact ⟨by decide, rfl⟩

end StepGraph
