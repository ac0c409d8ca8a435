import StepGraph.Proofs.Document.RoundTrip
import StepGraph.Proofs.Store.Likeness

/-!
# Going on after a reload

A store that is saved and loaded again has the same graph, but it counts on
from the highest number in use, which may be lower than where the old store
was (`Recast.renumbered`). The two stores are alike under a recasting that
touches nothing but the numbers to come, so as long as the counter of the old
store does not go round, a run is answered the same in both
(`Renumbered.performAll`), and in the end the documents differ in sequence
numbers only.
-/

namespace StepGraph

open List (Forall₂)

variable {r : Recast} {registry : Registry} {s s' : Store} {g g' : Graph}

/-! ## Recastings of numbers only -/

namespace Recast

/-- A recasting that leaves ids and tags as they are. -/
structure NumbersOnly (r : Recast) : Prop where
  ids : r.ids = Equiv.refl String
  kinds : r.kinds = id

/-- Operations do not speak of numbers. -/
theorem NumbersOnly.operation (h : r.NumbersOnly) (operation : Operation) :
    operation.recast r = operation := by
  cases operation <;>
    simp only [Operation.recast, map_scope_of_ids h.ids, h.ids, h.kinds, Equiv.refl_apply, id_eq]

/-- **The numbers of a store that counts on from elsewhere**: those below the
next one stay, and those to come follow the next one of the other store. -/
def renumbered (next next' : Nat) : Recast where
  ids := Equiv.refl String
  kinds := id
  sequences n := if n < next then n else next' + (n - next)
  kinds_tag _ := rfl

theorem renumbered_numbersOnly (next next' : Nat) : (renumbered next next').NumbersOnly :=
  ⟨rfl, rfl⟩

/-- A graph whose numbers are all below the next one stays as it is. -/
theorem graph_renumbered {next : Nat} (hlt : ∀ n ∈ g.nodes, n.sequence < next) (next' : Nat) :
    (renumbered next next').graph g = g := by
  have hnumbers := renumbered_numbersOnly next next'
  have hnodes : g.nodes.map (renumbered next next').node = g.nodes := by
    refine (List.map_congr_left fun n hn => ?_).trans (List.map_id _)
    have hsequence : (renumbered next next').sequences n.sequence = n.sequence :=
      if_pos (hlt n hn)
    rw [Recast.node, map_scope_of_ids hnumbers.ids, hsequence]
    rfl
  have hedges : g.edges.map (renumbered next next').edge = g.edges := List.map_id _
  have hvars : g.vars.entries.map (renumbered next next').entry = g.vars.entries := List.map_id _
  rw [Recast.graph, hnodes, hedges, Recast.vars, hvars]

end Recast

/-! ## Operations after a reload -/

/-- What a script shows: its text and who was skipped. -/
def Script.shown (script : Script) : String × List Diagnostic :=
  (script.text, script.diagnostics)

/-- A document with its numbers left out. -/
def Document.withoutSequences (d : Document) : Document :=
  { d with nodes := d.nodes.map fun record => { record with sequence := 0 } }

/-- **Two stores that differ in their numbers only.** -/
def Renumbered (s s' : Store) : Prop :=
  ∃ r : Recast, r.NumbersOnly ∧ Likeness r s s' ∧ s.ids = s'.ids

namespace Renumbered

/-- A sound store with an exact counter and the store of its graph. -/
theorem ofGraph (h : s.Sound) (hreg : s.registry.OnlyBuiltins) (hexact : s.nextSequence.Exact) :
    Renumbered s (.ofGraph s.graph s.registry s.ids) := by
  have hbelow : ∀ n ∈ s.graph.nodes, n.sequence < s.nextSequence.count :=
    hexact.number_eq ▸ h.sequences hexact
  have hgraph := Recast.graph_renumbered hbelow (Store.sequenceAfter s.graph.nodes).count
  have hnodes := List.map_inj_left.mp ((congrArg Graph.nodes hgraph).trans (List.map_id _).symm)
  refine ⟨_, Recast.renumbered_numbersOnly s.nextSequence.count
      (Store.sequenceAfter s.graph.nodes).count,
    ⟨hgraph.symm, fun _ => rfl, fun i => ?_,
      Store.count_sequenceAfter_le (Counter.exact_iff.mp hexact) hbelow, fun m hm n hn => ?_, hreg,
      hreg, h, h.graph, fun hexact' n hn => Store.sequence_lt_sequenceAfter hn hexact'⟩, rfl⟩
  · change (if s.nextSequence.count + i < s.nextSequence.count then _ else _) = _
    rw [if_neg (by omega), Nat.add_sub_cancel_left]
    rfl
  · rw [hnodes m hm, hnodes n hn]
    rfl

/-- **A run is answered the same** and leaves stores that differ in their
numbers only, as long as the counter does not go round. -/
theorem performAll (h : Renumbered s s') (operations : List Operation)
    (hexact : (s.performAll operations).2.nextSequence.Exact) :
    (s'.performAll operations).1 = (s.performAll operations).1 ∧
      Renumbered (s.performAll operations).2 (s'.performAll operations).2 := by
  obtain ⟨r, hr, hlike, hids⟩ := h
  have hrun := SameIds.performAll (K := Eq) ⟨hlike, hr.ids, hids⟩
    (fun tag => by rw [hr.kinds, id_eq]) operations (.inr hexact)
  rw [show Operation.recast r = id from funext hr.operation, List.map_id] at hrun
  obtain ⟨hanswers, hlast⟩ := hrun
  refine ⟨?_, r, hr, hlast.likeness, hlast.source⟩
  rw [eq_comm, ← List.forall₂_eq_eq_eq]
  refine hanswers.imp fun answer answer' halike => ?_
  cases halike with
  | error he => rw [he.eq]
  | ok hid => rw [hid]

/-- **Both compile to the same.** -/
theorem compile (h : Renumbered s s') (comments : Bool) :
    (s'.graph.compile s'.registry comments).map Script.shown =
      (s.graph.compile s.registry comments).map Script.shown := by
  obtain ⟨r, hr, hlike, -⟩ := h
  have hcompile := hlike.compile (R := Eq) (K := Eq) (fun n _ => by rw [hr.ids, Equiv.refl_apply])
    (fun tag => by rw [hr.kinds, id_eq]) comments
  refine (hcompile.map_eq ?_ ?_).symm
  · rintro ⟨errors⟩ ⟨errors'⟩ he
    have hsame : errors = errors' :=
      List.forall₂_eq_eq_eq ▸ he.imp fun _ _ hfault => ConfigurationError.Alike.eq hfault
    rw [hsame]
  · rintro script script' ⟨htext, hdiagnostics⟩
    have hsame : script.diagnostics = script'.diagnostics :=
      List.forall₂_eq_eq_eq ▸ hdiagnostics.imp fun _ _ hskip => Diagnostic.Alike.eq hskip
    rw [Script.shown, Script.shown, htext, hsame]

/-- The documents differ in sequence numbers only. -/
theorem document (h : Renumbered s s') :
    (Document.ofGraph s'.graph).withoutSequences = (Document.ofGraph s.graph).withoutSequences := by
  obtain ⟨r, hr, hlike, -⟩ := h
  simp only [hlike.graph, Document.withoutSequences, Document.ofGraph, Recast.graph, Recast.vars,
    List.map_map, Document.mk.injEq]
  refine ⟨List.map_congr_left fun n _ => ?_, Recast.map_edge_of_ids hr.ids _,
    Recast.map_entry_of_ids hr.ids _, trivial⟩
  simp only [Function.comp_apply, NodeRecord.ofNode, Recast.node, Node.parentId?,
    Recast.map_scope_of_ids hr.ids, hr.ids, hr.kinds, Equiv.refl_apply, id_eq]

end Renumbered

/-! ## Runs with a reload -/

end StepGraph
