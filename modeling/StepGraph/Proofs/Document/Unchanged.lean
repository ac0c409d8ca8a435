import StepGraph.Proofs.Document.Acceptance
import StepGraph.Proofs.Graph.ParentText

/-!
# Loading and saving

Loading reads the parent text of every record as a scope and builds the name
tables anew; everything else it takes as it is. A scope has one text, the one
that it was read from, and a table keeps its entries in their order. So the
document of a loaded graph is the one that was loaded (`ofGraph_of_load`),
whatever the registry says of kinds.
-/

namespace StepGraph.Document

variable {registry : Registry} {ids : IdSource} {d : Document} {nodeIds : List String}
variable {record : NodeRecord}

/-- **A parent text comes back** from the scope that it is read as. -/
theorem parentId?_resolve
    (h : ∀ text, record.parentId = some text →
      ∃ scope, Scope.parse? nodeIds.contains text = some scope) :
    (resolve nodeIds record).parentId? = record.parentId := by
  rw [Node.parentId?, resolve]
  cases htext : record.parentId with
  | none => rfl
  | some text =>
    obtain ⟨scope, hparse⟩ := h text htext
    rw [Option.bind_some, hparse, Option.map_some, (Scope.reads_of_parse? hparse).1.2]

/-- A record comes back from the node that it is resolved to. -/
theorem ofNode_resolve
    (h : ∀ text, record.parentId = some text →
      ∃ scope, Scope.parse? nodeIds.contains text = some scope) :
    NodeRecord.ofNode (resolve nodeIds record) = record := by
  rw [NodeRecord.ofNode, parentId?_resolve h]
  rfl

/-- **A consistent document comes back** from the graph that it makes. -/
theorem Consistent.ofGraph_loaded (h : d.Consistent) :
    Document.ofGraph (d.loaded registry ids).store.graph = d := by
  have hnodes : d.resolved.map NodeRecord.ofNode = d.nodes := by
    rw [resolved, List.map_map]
    refine (List.map_congr_left fun record hrecord => ?_).trans (List.map_id _)
    exact ofNode_resolve (h.parents record hrecord)
  -- the tables hold the lists that they are made of
  change Document.mk (d.resolved.map NodeRecord.ofNode) d.edges d.vars d.assistants = d
  rw [hnodes]

/-- **Loading and saving a document changes nothing**, with any registry: the
document of the loaded graph is the one that was loaded, field by field and in
order. So it is loaded a second time, by whatever source of ids, to the same
graph and with the same nodes reported. -/
theorem ofGraph_of_load {result : Loaded} (h : d.load registry ids = .ok result) :
    Document.ofGraph result.store.graph = d ∧
      ∀ ids', ∃ again, (Document.ofGraph result.store.graph).load registry ids' = .ok again ∧
        again.store.graph = result.store.graph ∧ again.unbound = result.unbound := by
  obtain ⟨hconsistent, hplaced, rfl⟩ := load_eq_ok_iff_consistent.mp h
  have hback : Document.ofGraph (d.loaded registry ids).store.graph = d :=
    hconsistent.ofGraph_loaded
  refine ⟨hback, fun ids' => ?_⟩
  rw [hback]
  exact ⟨_, load_eq_ok_iff_consistent.mpr ⟨hconsistent, hplaced, rfl⟩, rfl, rfl⟩

/-- Ids and a case with hyphens: a switch in the second branch of a
conditional, under the id of the first branch, and a node of an unregistered
kind that produces a variable. -/
def withHyphens : Document where
  nodes := [⟨"a", "conditional", none, 3, .origin, .empty⟩,
    ⟨"a-if", "choice", some "a-else", 1, ⟨.ofNat 2, .zero⟩, .empty⟩,
    ⟨"c", "case", some "a-if-case-x-if", 1, .origin,
      ⟨"first", [], .object [("value", .string "x-if")]⟩⟩,
    ⟨"w", "widget", some "c", 0, .origin, .empty⟩]
  edges := [⟨"e", "a", "a-if", .secondary⟩]
  vars := [⟨"answer", "Answer", "w"⟩]
  assistants := [⟨"guide", "small", "kind"⟩]

/-- The switch is read as lying in the conditional, the case as lying in the
switch, and both are saved as they were. -/
theorem ofGraph_load_withHyphens :
    ∃ result, withHyphens.load (Registry.builtin.withAliases [("choice", "switch")])
        ⟨fun _ => 0, 0⟩ = .ok result ∧
      result.store.graph.nodes.map Node.scope =
        [none, some ⟨"a", .elseBranch⟩, some ⟨"a-if", .caseBranch "x-if"⟩, some ⟨"c", .body⟩] ∧
      Document.ofGraph result.store.graph = withHyphens := by
  obtain ⟨result, hload, hscopes⟩ : ∃ result,
      withHyphens.load (Registry.builtin.withAliases [("choice", "switch")])
        ⟨fun _ => 0, 0⟩ = .ok result ∧
      result.store.graph.nodes.map Node.scope =
        [none, some ⟨"a", .elseBranch⟩, some ⟨"a-if", .caseBranch "x-if"⟩, some ⟨"c", .body⟩] :=
    ⟨_, rfl, rfl⟩
  exact ⟨result, hload, hscopes, (ofGraph_of_load hload).1⟩

end StepGraph.Document
