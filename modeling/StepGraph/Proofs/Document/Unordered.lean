import StepGraph.Proofs.Document.Acceptance
import StepGraph.Proofs.Script.Unordered

/-!
# Documents and layout

The order of the nodes in a document is a matter of layout as well. Where ids
are different a search by id finds the same node in every order, so a node is
legally placed in all of them or in none (`Placement.check_eq_of_perm`), and a
document is loaded in every order of its nodes or in none. With what is known
of scripts, nothing that loading and compiling say depends on the layout
(`load_and_compile_unordered`).
-/

namespace StepGraph

variable {registry : Registry} {nodes nodes' : List Node}

/-! ## Places -/

/-- **A search by id does not depend on the order**, where ids are
different. -/
theorem DistinctIds.find?_eq_of_perm (hd : DistinctIds nodes) (h : nodes.Perm nodes')
    (id : String) : nodes.find? (·.id == id) = nodes'.find? (·.id == id) := by
  have hd' : DistinctIds nodes' := (h.map Node.id).nodup_iff.mp hd
  refine Option.ext fun n => ?_
  rw [hd.find?_eq_some_iff, hd'.find?_eq_some_iff, h.mem_iff]

namespace Placement

/-- **Whether a node may be placed** does not depend on the order of the
nodes around it. -/
theorem check_eq_of_perm (hreg : registry.IgnoresLayout) (hd : DistinctIds nodes)
    (h : nodes.Perm nodes') (moving : Option String) (kind : String) (payload : Payload)
    (scope : Option Scope) :
    check registry nodes moving kind payload scope =
      check registry nodes' moving kind payload scope := by
  have hothers : (withoutMoving nodes moving).Perm (withoutMoving nodes' moving) := h.filter _
  have hdothers : DistinctIds (withoutMoving nodes moving) := hd.filter _
  cases scope with
  | none => rfl
  | some scope =>
    rw [check, check, hdothers.find?_eq_of_perm hothers]
    cases (withoutMoving nodes' moving).find? (·.id == scope.owner) with
    | none => rfl
    | some owner =>
      dsimp only
      rw [checkOwned, checkOwned]
      cases hget : registry.get? owner.kind with
      | none => rfl
      | some ownerKind =>
        have hview := Containment.agrees_of_sameNodes hdothers (.of_perm hothers)
        dsimp only
        rw [(hreg _ _ hget).declaredSlots owner owner _ _ rfl hview]

end Placement

namespace Document

variable {d : Document} {records : List NodeRecord}

theorem checkPlacements_eq_ok_iff_of_perm (hreg : registry.IgnoresLayout) (hd : DistinctIds nodes)
    (h : nodes.Perm nodes') :
    checkPlacements registry nodes = .ok () ↔ checkPlacements registry nodes' = .ok () := by
  have hunbound : ∀ n, ownerUnbound registry nodes n = ownerUnbound registry nodes' n := fun n => by
    rw [ownerUnbound, ownerUnbound, funext fun owner => hd.find?_eq_of_perm h owner]
  rw [checkPlacements, checkPlacements, Checks.forM_eq_ok_iff, Checks.forM_eq_ok_iff]
  simp only [hunbound, Placement.check_eq_of_perm hreg hd h, h.mem_iff]

/-! ## Loading -/

/-- The nodes of a document come in the order of its records. -/
theorem resolved_perm (h : d.nodes.Perm records) :
    d.resolved.Perm { d with nodes := records }.resolved := by
  have hknown : d.nodeIds.contains = ({ d with nodes := records } : Document).nodeIds.contains :=
    funext fun id => (h.map NodeRecord.id).contains_eq
  have hresolve : resolve d.nodeIds = resolve ({ d with nodes := records } : Document).nodeIds := by
    funext record
    rw [resolve, resolve, hknown]
  rw [resolved, resolved, hresolve]
  exact h.map _

/-- **A document is consistent in every order of its nodes** or in none. -/
theorem Consistent.of_perm (hc : d.Consistent) (h : d.nodes.Perm records) :
    { d with nodes := records }.Consistent := by
  have hids : d.nodeIds.Perm ({ d with nodes := records } : Document).nodeIds := h.map _
  have hnodes := resolved_perm h
  have hknown : d.nodeIds.contains = ({ d with nodes := records } : Document).nodeIds.contains :=
    funext fun id => hids.contains_eq
  have howns : Owns d.resolved = Owns { d with nodes := records }.resolved := by
    funext m n
    rw [Owns, Owns, hnodes.mem_iff]
  refine ⟨(hids.append_right _).nodup_iff.mp hc.ids, fun record hr => ?_, fun n hn => ?_,
    fun e he => ?_, fun v hv => hids.mem_iff.mp (hc.producers v hv), hc.vars_distinct,
    hc.vars_allowed, hc.assistants_distinct, hc.assistants_allowed⟩
  · rw [← hknown]
    exact hc.parents record (h.mem_iff.mpr hr)
  · rw [Inside, ← howns]
    exact hc.noCircle n (hnodes.mem_iff.mpr hn)
  · exact ⟨hids.mem_iff.mp (hc.ends e he).1, hids.mem_iff.mp (hc.ends e he).2⟩

/-- A document that is loaded is loaded in every order of its nodes. -/
theorem exists_load_of_perm (hreg : registry.IgnoresLayout) (h : d.nodes.Perm records)
    {ids : IdSource} (ids' : IdSource) (hload : ∃ result, d.load registry ids = .ok result) :
    ∃ result, { d with nodes := records }.load registry ids' = .ok result := by
  obtain ⟨result, hload⟩ := hload
  obtain ⟨hc, hplaced, -⟩ := load_eq_ok_iff_consistent.mp hload
  have hplaced' := (checkPlacements_eq_ok_iff_of_perm hreg (distinctIds_resolved hc.ids)
    (resolved_perm h)).mp hplaced
  exact ⟨_, load_eq_ok_iff_consistent.mpr ⟨hc.of_perm h, hplaced', rfl⟩⟩

/-- A document that is loaded is compiled like every graph with its nodes. -/
theorem compile_alike_of_load (hreg : registry.IgnoresLayout) {ids : IdSource}
    {result result' : Loaded} (hload : d.load registry ids = .ok result)
    (hsame : SameNodes result.store.graph.nodes result'.store.graph.nodes) (comments : Bool) :
    Alike (fun report report' => report.errors.Perm report'.errors)
      (fun script script' =>
        script.text = script'.text ∧ script.diagnostics = script'.diagnostics)
      (result.store.graph.compile registry comments)
      (result'.store.graph.compile registry comments) := by
  obtain ⟨hc, -, rfl⟩ := load_eq_ok_iff_consistent.mp hload
  exact compile_of_sameNodes hreg (distinctIds_resolved hc.ids) hsame comments

/-- Whether a document is loaded does not depend on the order of its nodes. -/
theorem exists_load_iff_of_perm (hreg : registry.IgnoresLayout) (h : d.nodes.Perm records)
    (ids ids' : IdSource) :
    (∃ result, d.load registry ids = .ok result) ↔
      ∃ result, { d with nodes := records }.load registry ids' = .ok result :=
  ⟨exists_load_of_perm hreg h ids',
    exists_load_of_perm (d := { d with nodes := records }) hreg h.symm ids⟩

/-- **Layout says nothing.** Where all kinds ignore the layout, two documents
that are loaded and whose graphs have the same nodes, in any order and drawn
anywhere, are compiled alike whatever else they hold: either both are refused
for the same faults up to order, or both have the same script and the same
diagnostics. And whether a document is loaded does not depend on the order of
its nodes. -/
theorem load_and_compile_unordered (hreg : registry.IgnoresLayout) :
    (∀ (d d' : Document) (ids ids' : IdSource) (result result' : Loaded),
      d.load registry ids = .ok result → d'.load registry ids' = .ok result' →
      SameNodes result.store.graph.nodes result'.store.graph.nodes →
      ∀ comments, Alike (fun report report' => report.errors.Perm report'.errors)
        (fun script script' =>
          script.text = script'.text ∧ script.diagnostics = script'.diagnostics)
        (result.store.graph.compile registry comments)
        (result'.store.graph.compile registry comments)) ∧
    ∀ (d : Document) (records : List NodeRecord) (ids ids' : IdSource), d.nodes.Perm records →
      ((∃ result, d.load registry ids = .ok result) ↔
        ∃ result, { d with nodes := records }.load registry ids' = .ok result) :=
  ⟨fun _ _ _ _ _ _ hload _ hsame comments => compile_alike_of_load hreg hload hsame comments,
    fun _ _ ids ids' h => exists_load_iff_of_perm hreg h ids ids'⟩

/-- **The built-in kinds ignore the layout**, so of them this holds under any
aliases. -/
theorem layout_unread_withAliases (aliases : List (String × String)) :
    let registry := Registry.builtin.withAliases aliases
    (∀ (d d' : Document) (ids ids' : IdSource) (result result' : Loaded),
      d.load registry ids = .ok result → d'.load registry ids' = .ok result' →
      SameNodes result.store.graph.nodes result'.store.graph.nodes →
      ∀ comments, Alike (fun report report' => report.errors.Perm report'.errors)
        (fun script script' =>
          script.text = script'.text ∧ script.diagnostics = script'.diagnostics)
        (result.store.graph.compile registry comments)
        (result'.store.graph.compile registry comments)) ∧
    ∀ (d : Document) (records : List NodeRecord) (ids ids' : IdSource), d.nodes.Perm records →
      ((∃ result, d.load registry ids = .ok result) ↔
        ∃ result, { d with nodes := records }.load registry ids' = .ok result) := by
  intro registry
  have hreg : registry.IgnoresLayout := (Registry.onlyBuiltins_withAliases aliases).ignoresLayout
  exact ⟨fun _ _ _ _ _ _ hload _ hsame comments => compile_alike_of_load hreg hload hsame comments,
    fun _ _ ids ids' h => exists_load_iff_of_perm hreg h ids ids'⟩

/-- Two steps of one sequence number with nothing between them. -/
def withTwins : Document where
  nodes := [⟨"a", "step", none, 0, .origin, ⟨"first", ["greet();\n"], .null⟩⟩,
    ⟨"b", "step", none, 0, .origin, ⟨"", [], .null⟩⟩]
  edges := []
  vars := []
  assistants := []

/-- The same steps the other way round, one of them drawn elsewhere, and an
edge between them. -/
def withTwinsTurned : Document where
  nodes := [⟨"b", "step", none, 0, ⟨.ofNat 1, .zero⟩, ⟨"", [], .null⟩⟩,
    ⟨"a", "step", none, 0, .origin, ⟨"first", ["greet();\n"], .null⟩⟩]
  edges := [⟨"e", "a", "b", .primary⟩]
  vars := []
  assistants := []

/-- Both are compiled alike, and the first is loaded the other way round. -/
theorem load_and_compile_withTwins :
    let registry := Registry.builtin.withAliases [("step", "action")]
    let ids : IdSource := ⟨fun _ => 0, 0⟩
    ∃ result result', withTwins.load registry ids = .ok result ∧
      withTwinsTurned.load registry ids = .ok result' ∧
      Alike (fun report report' => report.errors.Perm report'.errors)
        (fun script script' =>
          script.text = script'.text ∧ script.diagnostics = script'.diagnostics)
        (result.store.graph.compile registry true) (result'.store.graph.compile registry true) ∧
      ∃ result'', { withTwins with nodes := withTwins.nodes.reverse }.load registry ids =
        .ok result'' := by
  intro registry ids
  have hreg : registry.IgnoresLayout := (Registry.onlyBuiltins_withAliases _).ignoresLayout
  have hsame : SameNodes withTwins.resolved withTwinsTurned.resolved := .swap _ _ _
  have hload : withTwins.load registry ids = .ok (withTwins.loaded registry ids) := rfl
  have hload' : withTwinsTurned.load registry ids = .ok (withTwinsTurned.loaded registry ids) := rfl
  obtain ⟨hcompile, hturn⟩ := load_and_compile_unordered hreg
  refine ⟨_, _, hload, hload', hcompile _ _ ids ids _ _ hload hload' hsame true, ?_⟩
  exact (hturn withTwins _ ids ids (List.reverse_perm _).symm).mp ⟨_, hload⟩

end Document

end StepGraph
