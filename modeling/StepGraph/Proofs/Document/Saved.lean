import StepGraph.Document.Text
import StepGraph.Proofs.Document.Acceptance
import StepGraph.Proofs.Json.Value

/-!
# Documents that come back

A document that is written as text is read again when all its records can be
read (`NodeRecord.IsReadable`, `ofText?_text_eq_some_iff`): writing has no way
to refuse, but reading wants numbers for coordinates and goes no deeper than
its levels into a configuration. What comes back differs in positions, in the
numbers and the order of members in configurations and in handles. None of
this is asked about on loading but the values of cases, and these stay
(`caseValue_reread`), so a well-formed document comes back well formed
(`WellFormed.reread`).
-/

namespace StepGraph

open Json (Tree)

variable {registry : Registry} {d d' : Document} {nodes others : List Node} {m n : Node}
variable {kind : String} {payload payload' : Payload} {scope : Option Scope}

/-! ## Fields -/

namespace Json

/-- The members of a written object are looked up under their names. -/
theorem fields?_spelt (members : List (String × Json)) (names : List String) :
    (object members).spelt.fields? names =
      names.mapM (field? (members.map fun member => (member.1, member.2.spelt))) := by
  have hnamed : (spelt.speltMembers members).mapM
      (fun member => (textOf? member.1).map (·, member.2)) =
        some (members.map fun member => (member.1, member.2.spelt)) := by
    induction members with
    | nil => rfl
    | cons member rest ih =>
      obtain ⟨name, value⟩ := member
      rw [spelt.speltMembers, List.mapM_cons, ih, textOf?_textParts]
      rfl
  rw [spelt, Tree.fields?, hnamed]
  rfl

/-- A written leaf is read. -/
theorem leaf?_spelt {value : Json} (h : value.depth = 0) :
    value.spelt.leaf? = some value.reread :=
  (json?_spelt value 0).trans (if_pos h.le)

@[simp] theorem string?_spelt_string (value : String) :
    (string value).spelt.string? = some value :=
  textOf?_textParts value

/-- A written list is read item by item. -/
theorem list?_spelt {α β : Type} (write : α → Json) (read : Tree → Option β) (l : List α) :
    (array (l.map write)).spelt.list? read = l.mapM fun a => read (write a).spelt := by
  have hitems : spelt.speltItems (l.map write) = l.map fun a => (write a).spelt := by
    induction l with
    | nil => rfl
    | cons a l ih => rw [List.map_cons, spelt.speltItems, ih, List.map_cons]
  rw [spelt, Tree.list?, hitems, List.mapM_map]
  rfl

end Json

/-! ## Records -/

/-- The number that a written number is read as. -/
def Binary64.reread (x : Binary64) : Binary64 :=
  (Json.ofBinary64 x).reread.binary64?.getD x

namespace Json

@[simp] theorem depth_ofBinary64 (x : Binary64) : (ofBinary64 x).depth = 0 := by
  rw [ofBinary64]
  split <;> rfl

@[simp] theorem depth_ofNat (n : Nat) : (ofNat n).depth = 0 := by
  rw [ofNat, ofInt]
  split
  · rfl
  · exact depth_ofBinary64 _

/-- **A number is read where it is finite**; the others are written as
`null`. -/
theorem binary64?_reread_eq_some_iff {x y : Binary64} :
    (ofBinary64 x).reread.binary64? = some y ↔ x.isFinite = true ∧ y = x.reread := by
  rw [Binary64.reread]
  by_cases h : x.isFinite = true
  · rw [ofBinary64, dif_pos h, reread]
    cases (Number.real x h).reread <;> simp [binary64?, h, eq_comm]
  · simp [ofBinary64, h, reread, binary64?]

/-- A natural number is read where 64 bits hold it. -/
theorem natural?_reread_eq_some_iff {n m : Nat} :
    (ofNat n).reread.natural? = some m ↔ n < UInt64.size ∧ m = n := by
  rw [ofNat, ofInt]
  by_cases h : fitsInteger n = true
  · rw [dif_pos h, reread, Number.reread_integer, natural?]
    simp [fitsInteger_natCast_iff.mp h, eq_comm]
  · rw [dif_neg h, ofBinary64]
    have hn := mt fitsInteger_natCast_iff.mpr h
    split
    · rename_i hfinite
      obtain ⟨y, hy, hreread⟩ := Number.exists_reread_real hfinite
      simp [reread, hreread, natural?, hn]
    · simp [reread, natural?, hn]

end Json

namespace Position

/-- Both coordinates are numbers that JSON has. -/
def IsFinite (position : Position) : Prop :=
  position.x.isFinite = true ∧ position.y.isFinite = true

/-- The position that a written position is read as. -/
def reread (position : Position) : Position :=
  ⟨position.x.reread, position.y.reread⟩

/-- **A position is read where it is finite.** -/
theorem ofTree?_toJson_eq_some_iff {position position' : Position} :
    ofTree? position.toJson.spelt = some position' ↔
      position.IsFinite ∧ position' = position.reread := by
  have hfields : position.toJson.spelt.fields? ["x", "y"] =
      some [some (Json.ofBinary64 position.x).spelt, some (Json.ofBinary64 position.y).spelt] := by
    rw [toJson, Json.fields?_spelt]
    rfl
  simp only [ofTree?, hfields, Option.bind_eq_bind, Option.bind_some, Option.bind_eq_some_iff,
    Json.leaf?_spelt (Json.depth_ofBinary64 _), Json.binary64?_reread_eq_some_iff]
  constructor
  · rintro ⟨x, ⟨hx, rfl⟩, y, ⟨hy, rfl⟩, ⟨⟩⟩
    exact ⟨⟨hx, hy⟩, rfl⟩
  · rintro ⟨⟨hx, hy⟩, rfl⟩
    exact ⟨_, ⟨hx, rfl⟩, _, ⟨hy, rfl⟩, rfl⟩

end Position

namespace Payload

/-- The payload that a written payload is read as. -/
def reread (payload : Payload) : Payload :=
  { payload with config := payload.config.reread }

/-- **A payload is read where its configuration is not nested too deep.** -/
theorem ofTree?_toJson_eq_some_iff :
    ofTree? payload.toJson.spelt = some payload' ↔
      payload.config.depth ≤ configLevels ∧ payload' = payload.reread := by
  have hfields : payload.toJson.spelt.fields? ["label", "code", "config"] =
      some [some (Json.string payload.label).spelt,
        some (Json.array (payload.code.map .string)).spelt, some payload.config.spelt] := by
    rw [toJson, Json.fields?_spelt]
    rfl
  have hcode : (Json.array (payload.code.map .string)).spelt.list? Tree.string? =
      some payload.code := by
    simp only [Json.list?_spelt, Json.string?_spelt_string, Checks.mapM_some]
  simp only [ofTree?, hfields, Option.bind_eq_bind, Option.bind_some, Tree.orDefault,
    Json.string?_spelt_string, hcode, Json.json?_spelt]
  by_cases h : payload.config.depth ≤ configLevels
  · simp [h, reread, eq_comm]
  · simp [h]

end Payload

namespace NodeRecord

/-- **A record that can be read**: the position is finite, the configuration
is not nested too deep, and the sequence number has 64 bits. -/
structure IsReadable (record : NodeRecord) : Prop where
  position : record.position.IsFinite
  config : record.payload.config.depth ≤ configLevels
  sequence : record.sequence < UInt64.size

/-- The record that a written record is read as. -/
def reread (record : NodeRecord) : NodeRecord :=
  { record with position := record.position.reread, payload := record.payload.reread }

theorem fields?_toJson (record : NodeRecord) :
    record.toJson.spelt.fields? ["id", "kind", "parentId", "sequence", "position", "payload"] =
      some [some (Json.string record.id).spelt, some (Json.string record.kind).spelt,
        record.parentId.map fun text => (Json.string text).spelt,
        some (Json.ofNat record.sequence).spelt, some record.position.toJson.spelt,
        some record.payload.toJson.spelt] := by
  rw [toJson, Json.fields?_spelt]
  cases record.parentId <;> simp [Json.field?]

/-- **A record is read where it is readable.** -/
theorem ofTree?_toJson_eq_some_iff {record record' : NodeRecord} :
    ofTree? record.toJson.spelt = some record' ↔
      record.IsReadable ∧ record' = record.reread := by
  have hparent : Tree.optionalString? (record.parentId.map fun text => (Json.string text).spelt) =
      some record.parentId := by
    cases record.parentId with
    | none => rfl
    | some text => exact congrArg (Option.map some) (Json.string?_spelt_string text)
  have hsequence (n : Nat) : (Json.ofNat record.sequence).spelt.leaf?.bind Json.natural? = some n ↔
      record.sequence < UInt64.size ∧ n = record.sequence := by
    rw [Json.leaf?_spelt (Json.depth_ofNat _), Option.bind_some]
    exact Json.natural?_reread_eq_some_iff
  rw [ofTree?, fields?_toJson]
  simp only [Option.bind_eq_bind, Option.bind_eq_some_iff, Option.some.injEq, exists_eq_left',
    Json.string?_spelt_string, hparent, Tree.orDefault, hsequence,
    Position.ofTree?_toJson_eq_some_iff, Payload.ofTree?_toJson_eq_some_iff]
  constructor
  · rintro ⟨_, ⟨hsequence, rfl⟩, _, ⟨hposition, rfl⟩, _, ⟨hconfig, rfl⟩, ⟨⟩⟩
    exact ⟨⟨hposition, hconfig, hsequence⟩, rfl⟩
  · rintro ⟨⟨hposition, hconfig, hsequence⟩, rfl⟩
    exact ⟨_, ⟨hsequence, rfl⟩, _, ⟨hposition, rfl⟩, _, ⟨hconfig, rfl⟩, rfl⟩

end NodeRecord

/-- The edge that a written edge is read as. -/
def Edge.reread (edge : Edge) : Edge :=
  { edge with handle := .ofText edge.handle.text }

theorem Edge.ofTree?_toJson (edge : Edge) : ofTree? edge.toJson.spelt = some edge.reread := by
  have hfields : edge.toJson.spelt.fields? ["id", "sourceNodeId", "targetNodeId", "sourceSlot"] =
      some [some (Json.string edge.id).spelt, some (Json.string edge.source).spelt,
        some (Json.string edge.target).spelt, some (Json.string edge.handle.text).spelt] := by
    rw [toJson, Json.fields?_spelt]
    rfl
  simp [ofTree?, hfields, reread]

theorem Variable.ofTree?_toJson (v : Variable) : ofTree? v.toJson.spelt = some v := by
  have hfields : v.toJson.spelt.fields? ["name", "displayName", "producingNodeId"] =
      some [some (Json.string v.name).spelt, some (Json.string v.displayName).spelt,
        some (Json.string v.producer).spelt] := by
    rw [toJson, Json.fields?_spelt]
    rfl
  simp [ofTree?, hfields]

theorem Assistant.ofTree?_toJson (a : Assistant) : ofTree? a.toJson.spelt = some a := by
  have hfields : a.toJson.spelt.fields? ["name", "model", "personality"] =
      some [some (Json.string a.name).spelt, some (Json.string a.model).spelt,
        some (Json.string a.personality).spelt] := by
    rw [toJson, Json.fields?_spelt]
    rfl
  simp [ofTree?, hfields]

/-! ## Documents -/

namespace Document

/-- The document that a written document is read as. -/
def reread (d : Document) : Document :=
  { d with nodes := d.nodes.map NodeRecord.reread, edges := d.edges.map Edge.reread }

/-- **A document is read when all its records can be read**, and then as it
was but for positions, configurations and handles. -/
theorem ofText?_text_eq_some_iff :
    ofText? d.text = some d' ↔ (∀ record ∈ d.nodes, record.IsReadable) ∧ d' = d.reread := by
  have hfields : d.toJson.spelt.fields? ["nodes", "edges", "variables", "assistants"] =
      some [some (Json.array (d.nodes.map NodeRecord.toJson)).spelt,
        some (Json.array (d.edges.map Edge.toJson)).spelt,
        some (Json.array (d.vars.map Variable.toJson)).spelt,
        some (Json.array (d.assistants.map Assistant.toJson)).spelt] := by
    rw [toJson, Json.fields?_spelt]
    rfl
  have hnodes {records : List NodeRecord} :
      (d.nodes.mapM fun record => NodeRecord.ofTree? record.toJson.spelt) = some records ↔
        (∀ record ∈ d.nodes, record.IsReadable) ∧ records = d.nodes.map NodeRecord.reread :=
    Checks.mapM_eq_some_iff fun _ _ _ => NodeRecord.ofTree?_toJson_eq_some_iff
  rw [ofText?, text, Json.read?_pretty, Option.bind_some, ofTree?, hfields]
  simp only [Option.bind_eq_bind, Option.bind_eq_some_iff, Option.some.injEq, exists_eq_left',
    Tree.orDefault, Json.list?_spelt, hnodes, Edge.ofTree?_toJson, Variable.ofTree?_toJson,
    Assistant.ofTree?_toJson, Checks.mapM_some_map, Checks.mapM_some]
  constructor
  · rintro ⟨_, ⟨hreadable, rfl⟩, ⟨⟩⟩
    exact ⟨hreadable, rfl⟩
  · rintro ⟨hreadable, rfl⟩
    exact ⟨_, ⟨hreadable, rfl⟩, rfl⟩

end Document

/-! ## Places -/

/-- The node that a written node is read as. -/
@[simps]
def Node.reread (node : Node) : Node where
  id := node.id
  kind := node.kind
  scope := node.scope
  sequence := node.sequence
  position := node.position.reread
  payload := node.payload.reread

/-- The places of a node depend on its payload by the value of a case alone. -/
theorem MayPlace.congr_payload (h : MayPlace registry others kind payload scope)
    (hvalue : Builtin.caseValue payload' = Builtin.caseValue payload) :
    MayPlace registry others kind payload' scope := by
  cases h with
  | top hkind => exact .top hkind
  | fixed hmem hb hslot hkind => exact .fixed hmem hb hslot hkind
  | case hmem hb hkind hfree =>
    rw [← hvalue] at hfree ⊢
    exact .case hmem hb hkind hfree

/-- The value of a case stays. -/
theorem Builtin.caseValue_reread (h : payload.config.DistinctNames) :
    caseValue payload.reread = caseValue payload := by
  rw [caseValue, Payload.reread, Json.string?_get?_reread h, caseValue]

/-- Who lies inside whom stays. -/
theorem inside_of_reread (h : Inside (nodes.map Node.reread) m.reread n.reread) (hm : m ∈ nodes) :
    Inside nodes m n := by
  generalize hn' : n.reread = n' at h
  induction h generalizing n with
  | single howns =>
    subst hn'
    exact .single ⟨hm, howns.2⟩
  | tail _ howns ih =>
    subst hn'
    obtain ⟨b, hb, rfl⟩ := List.mem_map.mp howns.1
    exact (ih rfl).tail ⟨hb, howns.2⟩

/-- A legal place stays legal. -/
theorem LegallyPlaced.reread (h : LegallyPlaced registry nodes n)
    (hconfig : n.payload.config.DistinctNames) :
    LegallyPlaced registry (nodes.map Node.reread) n.reread := by
  have hothers : withoutMoving (nodes.map Node.reread) (some n.reread.id) =
      (withoutMoving nodes (some n.id)).map Node.reread := by
    rw [withoutMoving, List.filter_map]
    rfl
  rw [LegallyPlaced, hothers]
  have hplace : MayPlace registry ((withoutMoving nodes (some n.id)).map Node.reread) n.kind
      n.payload n.scope := by
    refine MayPlace.mono h (fun owner howner _ => ?_) fun _ other' hother' hscope => ?_
    · exact ⟨owner.reread, List.mem_map_of_mem howner, rfl, rfl⟩
    · obtain ⟨other, hother, rfl⟩ := List.mem_map.mp hother'
      exact ⟨other, hother, hscope⟩
  exact hplace.congr_payload (Builtin.caseValue_reread hconfig)

namespace Document

theorem nodeIds_reread : d.reread.nodeIds = d.nodeIds := by
  rw [nodeIds, reread, List.map_map, nodeIds]
  rfl

theorem resolved_reread : d.reread.resolved = d.resolved.map Node.reread := by
  rw [resolved, nodeIds_reread, reread, List.map_map, resolved, List.map_map]
  rfl

/-- **A well-formed document comes back well formed.** -/
theorem WellFormed.reread (h : d.WellFormed registry)
    (hconfigs : ∀ record ∈ d.nodes, record.payload.config.DistinctNames) :
    d.reread.WellFormed registry := by
  have hedgeIds : d.reread.edges.map Edge.id = d.edges.map Edge.id := by
    rw [Document.reread, List.map_map]
    rfl
  refine ⟨?_, ?_, ?_, ?_, ?_, h.vars_distinct, h.vars_allowed, h.assistants_distinct,
    h.assistants_allowed, ?_⟩
  · rw [nodeIds_reread, hedgeIds]
    exact h.ids
  · rw [nodeIds_reread]
    intro record' hrecord'
    obtain ⟨record, hrecord, rfl⟩ := List.mem_map.mp hrecord'
    exact h.parents record hrecord
  · rw [resolved_reread]
    intro n' hn' hinside
    obtain ⟨n, hn, rfl⟩ := List.mem_map.mp hn'
    exact h.noCircle n hn (inside_of_reread hinside hn)
  · rw [nodeIds_reread]
    intro e' he'
    obtain ⟨e, he, rfl⟩ := List.mem_map.mp he'
    exact h.ends e he
  · rw [nodeIds_reread]
    exact h.producers
  · rw [resolved_reread]
    intro n' hn' hbound
    obtain ⟨n, hn, rfl⟩ := List.mem_map.mp hn'
    have hbound' : ¬ OwnerUnbound registry d.resolved n := fun ⟨owner, ⟨hmem, howns⟩, hnone⟩ =>
      hbound ⟨owner.reread, ⟨List.mem_map_of_mem hmem, howns⟩, hnone⟩
    have hplaced := h.placed n hn hbound'
    obtain ⟨record, hrecord, rfl⟩ := List.mem_map.mp hn
    exact hplaced.reread (hconfigs record hrecord)

/-- The text of a document is not read where a record cannot be read. -/
theorem loadText_text_eq_error (h : ¬ ∀ record ∈ d.nodes, record.IsReadable) (ids : IdSource) :
    loadText d.text registry ids = .error .unreadable := by
  rw [loadText]
  cases hread : ofText? d.text with
  | none => rfl
  | some d' => exact absurd (ofText?_text_eq_some_iff.mp hread).1 h

/-- **The text of a well-formed document is loaded when all its records can
be read**, and only then. -/
theorem loadText_text_isOk_iff (hreg : registry.OnlyBuiltins) (h : d.WellFormed registry)
    (hconfigs : ∀ record ∈ d.nodes, record.payload.config.DistinctNames) {ids : IdSource} :
    (∃ result, loadText d.text registry ids = .ok result) ↔
      ∀ record ∈ d.nodes, record.IsReadable := by
  constructor
  · rintro ⟨result, hload⟩
    by_contra hnot
    rw [loadText_text_eq_error hnot] at hload
    cases hload
  · intro hreadable
    rw [loadText, ofText?_text_eq_some_iff.mpr ⟨hreadable, rfl⟩]
    exact ⟨_, (load_eq_ok_iff hreg).mpr ⟨h.reread hconfigs, rfl⟩⟩

end Document

end StepGraph
