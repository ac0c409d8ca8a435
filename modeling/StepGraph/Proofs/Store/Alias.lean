import StepGraph.Proofs.Document.Retagged
import StepGraph.Proofs.Kind.Alias
import StepGraph.Proofs.Script.Complete
import StepGraph.Proofs.Store.Likeness

/-!
# Aliases are transparent

A store that is read with aliases goes on as the one whose graph has the
built-in kinds themselves for tags. Both draw the same ids, so their runs are
answered alike (`SameIds.performAll`) and lead to graphs that differ in tags
only. Nothing of a tag gets into a script, and a node that is skipped has a
tag that stands for nothing, which no alias changes
(`Retags.compile_alike`). With loading, this is all that aliases do
(`load_withAliases`).
-/

namespace StepGraph

open List (Forall₂)

variable {f : String → String} {registry registry' : Registry} {g : Graph} {s s' : Store}
variable {aliases : List (String × String)}

/-- An operation with another tag: only adding a node speaks of one. -/
def Operation.retag (f : String → String) : Operation → Operation
  | addNode kind payload scope => addNode (f kind) payload scope
  | other => other

theorem Recast.operation_retagging (h : ∀ b : Builtin, f b.tag = b.tag) (operation : Operation) :
    operation.recast (retagging f h) = operation.retag f := by
  cases operation <;>
    simp only [Operation.recast, map_scope_of_ids (r := retagging f h) rfl] <;> rfl

/-- **Under proper aliases a tag is told by what it comes to.** -/
theorem ProperAliases.retags (h : ProperAliases aliases) :
    Retags (aliasTarget aliases) (Registry.builtin.withAliases aliases) Registry.builtin where
  bound := h.get?_aliasTarget
  builtin := h.aliasTarget_tag
  unbound _ := h.aliasTarget_eq_of_get?_eq_none
  builtins := Registry.onlyBuiltins_withAliases aliases
  builtins' := Registry.onlyBuiltins_builtin

/-! ## Compiling -/

/-- **Only a node of an unregistered kind is skipped** where a graph is
valid. -/
theorem Graph.unknownKind_of_mem_diagnostics (h : Nested registry g.nodes)
    (hreg : registry.OnlyBuiltins) {comments : Bool} {script : Script}
    (hcompile : g.compile registry comments = .ok script) {skip : Diagnostic}
    (hskip : skip ∈ script.diagnostics) :
    ∃ id kind, skip = .unknownKind id kind ∧ registry.get? kind = none := by
  obtain ⟨hvalid, rfl⟩ := compile_eq_ok_iff.mp hcompile
  have hvalidated : Generation.Validated ⟨registry, g.containment, comments⟩ :=
    validate_eq_ok_iff.mp hvalid
  rw [(generate_complete h hreg hvalidated).diagnostics] at hskip
  obtain ⟨n, hn, rfl⟩ := List.mem_map.mp hskip
  exact ⟨n.id, n.kind, rfl, Option.isNone_iff_eq_none.mp (List.mem_filter.mp hn).2⟩

namespace Retags

variable (h : Retags f registry registry')
include h

/-- Nodes of unregistered kinds are reported the same. -/
theorem diagnostics_eq {skips skips' : List Diagnostic}
    (hunknown : ∀ skip ∈ skips, ∃ id kind, skip = .unknownKind id kind ∧ registry.get? kind = none)
    (halike : Forall₂ (Diagnostic.Alike Eq fun kind kind' => kind' = f kind) skips skips') :
    skips' = skips := by
  rw [eq_comm, ← List.forall₂_eq_eq_eq]
  refine ((List.forall₂_and_left skips skips').mpr ⟨hunknown, halike⟩).imp ?_
  rintro _ skip' ⟨⟨id, kind, rfl, hnone⟩, hskip⟩
  cases hskip with
  | unknownKind hid hkind => rw [hid, hkind, h.unbound kind hnone]

/-- **A graph with other tags compiles alike**: to the same text, with the
same nodes skipped, or both graphs are refused for the same faults. -/
theorem compile_alike (hnested : Nested registry g.nodes) (comments : Bool) :
    Alike
      (fun report report' =>
        Forall₂ (ConfigurationError.Alike Eq fun kind kind' => kind' = f kind)
          report.errors report'.errors)
      (fun script script' => script'.text = script.text ∧
        script'.diagnostics = script.diagnostics)
      (g.compile registry comments) ((g.retag f).compile registry' comments) := by
  have hcompiled := (h.fits g.nodes).compile_alike comments
  rw [Recast.graph_retagging] at hcompiled
  cases hscript : g.compile registry comments with
  | error report =>
    obtain ⟨report', hreport', hfaults⟩ := (hscript ▸ hcompiled).exists_error
    rw [hreport']
    exact .error hfaults
  | ok script =>
    obtain ⟨script', hscript', htext, hskips⟩ := (hscript ▸ hcompiled).exists_ok
    rw [hscript']
    refine .ok ⟨htext.symm, h.diagnostics_eq (fun skip hskip => ?_) hskips⟩
    exact Graph.unknownKind_of_mem_diagnostics hnested h.builtins hscript hskip

/-! ## Operations -/

/-- A sound store and the one with other tags have the same ids. -/
theorem sameIds (hs : s.Sound) (hregistry : s.registry = registry)
    (hs' : (s.retag f registry').Sound) :
    SameIds (.retagging f h.builtin) s (s.retag f registry') := by
  subst hregistry
  refine ⟨⟨?_, h.bound, fun _ => rfl, Nat.le_refl _, ?_, h.builtins, h.builtins', hs, hs'⟩, rfl, rfl⟩
  · rw [Recast.graph_retagging]
    rfl
  · exact (h.fits s.graph.nodes).order

end Retags

/-- **Two stores that are the same but for tags**, after whatever operations,
those of the second with its tags. -/
structure SameButTags (f : String → String) (registry registry' : Registry) (s s' : Store) :
    Prop where
  /-- The answers are the same, but for the kinds that refusals name. -/
  answers : ∀ operations, Forall₂ (Alike (EditError.Alike Eq fun kind kind' => kind' = f kind) Eq)
    (s.performAll operations).1 (s'.performAll (operations.map (Operation.retag f))).1
  /-- The graphs are the same but for tags. -/
  graph : ∀ operations, (s'.performAll (operations.map (Operation.retag f))).2.graph =
    (s.performAll operations).2.graph.retag f
  /-- Both have the same script and the same nodes skipped, or are refused for
  the same faults, but for the kinds that these name. -/
  compiled : ∀ operations comments,
    Alike
      (fun report report' =>
        Forall₂ (ConfigurationError.Alike Eq fun kind kind' => kind' = f kind)
          report.errors report'.errors)
      (fun script script' => script'.text = script.text ∧
        script'.diagnostics = script.diagnostics)
      ((s.performAll operations).2.graph.compile registry comments)
      ((s'.performAll (operations.map (Operation.retag f))).2.graph.compile registry' comments)

/-- **Stores with the same ids are the same but for tags.** -/
theorem Retags.sameButTags (h : Retags f registry registry') (hregistry : s.registry = registry)
    (hsame : SameIds (.retagging f h.builtin) s s') :
    SameButTags f registry registry' s s' := by
  -- neither ids nor numbers change, so it does not matter whether the counter goes round
  have hrun operations := hsame.performAll (K := fun kind kind' => kind' = f kind) (fun _ => rfl)
    operations (.inl ⟨rfl, rfl⟩)
  rw [show Operation.recast (.retagging f h.builtin) = Operation.retag f from
    funext (Recast.operation_retagging h.builtin)] at hrun
  have hgraph : ∀ operations, (s'.performAll (operations.map (Operation.retag f))).2.graph =
      (s.performAll operations).2.graph.retag f := fun operations => by
    rw [(hrun operations).2.likeness.graph, Recast.graph_retagging]
  refine ⟨fun operations => (hrun operations).1, hgraph, fun operations comments => ?_⟩
  have hsound := (sound_performAll h.builtins ⟨hsame.likeness.sound, hregistry⟩ operations)
  have hnested := hsound.2 ▸ hsound.1.graph.nested
  rw [hgraph]
  exact h.compile_alike hnested comments

/-! ## Loading with aliases -/

/-- **Aliases are transparent.** Let every tag of a document be replaced by
the built-in kind that it comes to under proper aliases. With the aliases the
document is loaded when the other one is loaded without them, with the same
nodes reported, and is otherwise refused for the same cause. The two stores
are then the same but for tags: they answer every operation alike and compile
to the same script, or are refused for the same faults. -/
theorem load_withAliases (h : ProperAliases aliases) (d : Document) (ids : IdSource) :
    Alike (LoadError.Alike Eq fun kind kind' => kind' = aliasTarget aliases kind)
      (fun loaded loaded' => loaded'.unbound = loaded.unbound ∧
        SameButTags (aliasTarget aliases) (Registry.builtin.withAliases aliases) Registry.builtin
          loaded.store loaded'.store)
      (d.load (Registry.builtin.withAliases aliases) ids)
      ((d.retag (aliasTarget aliases)).load Registry.builtin ids) := by
  have hretags := h.retags
  have hloads := hretags.load_alike d ids
  cases hload : d.load (Registry.builtin.withAliases aliases) ids with
  | error e =>
    obtain ⟨e', hload', he⟩ := (hload ▸ hloads).exists_error
    rw [hload']
    exact .error he
  | ok loaded =>
    obtain ⟨loaded', hload', hstore, hunbound⟩ := (hload ▸ hloads).exists_ok
    obtain ⟨hsound, hregistry⟩ := (Initial.loaded hload).sound hretags.builtins
    have hsound' := ((Initial.loaded hload').sound hretags.builtins').1
    rw [hload']
    rw [hstore] at hsound'
    refine .ok ⟨hunbound, ?_⟩
    rw [hstore]
    exact hretags.sameButTags hregistry (hretags.sameIds hsound hregistry hsound')

/-- A step is a group first and an action in the end, so a group with a step
is one with an action. -/
theorem load_withAliases_withGroup :
    ProperAliases [("step", "group"), ("step", "action")] ∧
      ∃ loaded loaded',
        Document.withGroup.load
          (Registry.builtin.withAliases [("step", "group"), ("step", "action")])
            ⟨Nat.toUInt32, 0⟩ = .ok loaded ∧
        (Document.withGroup.retag (aliasTarget [("step", "group"), ("step", "action")])).load
          Registry.builtin ⟨Nat.toUInt32, 0⟩ = .ok loaded' ∧
        loaded'.store.graph.nodes.map Node.kind = ["group", "action", "widget", "action"] ∧
        SameButTags (aliasTarget [("step", "group"), ("step", "action")])
          (Registry.builtin.withAliases [("step", "group"), ("step", "action")]) Registry.builtin
          loaded.store loaded'.store := by
  have hproper : ProperAliases [("step", "group"), ("step", "action")] := by decide
  obtain ⟨loaded, hload⟩ : ∃ loaded, Document.withGroup.load
      (Registry.builtin.withAliases [("step", "group"), ("step", "action")]) ⟨Nat.toUInt32, 0⟩ =
        .ok loaded := ⟨_, rfl⟩
  obtain ⟨loaded', hload', -, hsame⟩ :=
    (hload ▸ load_withAliases hproper Document.withGroup ⟨Nat.toUInt32, 0⟩).exists_ok
  refine ⟨hproper, loaded, loaded', hload, hload', ?_, hsame⟩
  cases hload'
  rfl

end StepGraph
