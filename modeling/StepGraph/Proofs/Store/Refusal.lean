import StepGraph.Proofs.Store.Change

/-!
# Refused operations

An operation that is refused leaves the store as it was (`perform_refused`),
but for the draw of `connect`, which takes an id before it checks anything.
So a run can do without the operations that were refused: the others are
answered the same and the last store is the same (`performAll_effective`).
-/

namespace StepGraph

variable {store after : Store} {operation : Operation} {error : EditError}

/-- Whether an operation draws an id before it checks anything. -/
def Operation.drawsFirst : Operation → Bool
  | connect _ _ _ => true
  | _ => false

namespace Store

/-- The operations of a run with their answers. -/
def transcript (store : Store) (operations : List Operation) :
    List (Operation × Except EditError (Option String)) :=
  operations.zip (store.performAll operations).1

/-- The part of a run that counts: what was not refused, and what drew an id
although it was. -/
def effective (store : Store) (operations : List Operation) :
    List (Operation × Except EditError (Option String)) :=
  (store.transcript operations).filter fun entry => entry.1.drawsFirst || entry.2.isOk

end Store

/-! ## One operation -/

/-- **A refusal leaves no trace**, where nothing is drawn before the checks. -/
theorem perform_refused (hdraws : operation.drawsFirst = false)
    (h : (store.perform operation).1 = .error error) : (store.perform operation).2 = store := by
  revert h
  rw [Store.perform]
  -- an edit in its form without steps is refused with the store that it began with
  cases operation with
  | addNode kind payload scope =>
    rw [Operation.edit, Edit.run_map, Edit.run_addNode]
    split
    · intro h
      cases h
    · exact fun _ => rfl
  | addStep step scope =>
    rw [Operation.edit, Edit.run_map, Edit.run_addStep]
    split
    · exact fun _ => rfl
    · split
      · exact fun _ => rfl
      · intro h
        cases h
  | removeNode id =>
    rw [Operation.edit, Edit.run_map, Edit.run_removeNode]
    split
    · exact fun _ => rfl
    · intro h
      cases h
  | moveNode id position =>
    rw [Operation.edit, Edit.run_map, Edit.run_moveNode]
    split
    · exact fun _ => rfl
    · intro h
      cases h
  | connect source target handle => cases hdraws
  | reconnect id source target handle =>
    rw [Operation.edit, Edit.run_map, Edit.run_reconnect]
    split
    · exact fun _ => rfl
    · split
      · exact fun _ => rfl
      · intro h
        cases h
  | disconnect id =>
    rw [Operation.edit, Edit.run_map, Edit.run_disconnect]
    split
    · exact fun _ => rfl
    · split
      · exact fun _ => rfl
      · split
        · exact fun _ => rfl
        · intro h
          cases h
  | registerVariable name displayName producer =>
    rw [Operation.edit, Edit.run_map, Edit.run_registerVariable]
    split
    · exact fun _ => rfl
    · split
      · exact fun _ => rfl
      · intro h
        cases h
  | registerAssistant name model personality =>
    rw [Operation.edit, Edit.run_map, Edit.run_registerAssistant]
    split
    · exact fun _ => rfl
    · intro h
      cases h

/-- A refusal changes nothing but the source of ids. -/
theorem Change.refused_eq (h : Change store (.error error) after) :
    after = { store with ids := after.ids } := by
  cases h with
  | refused => rfl

/-! ## Runs -/

/-- The first operation of a run counts, or the run begins behind it. -/
theorem Store.effective_cons (rest : List Operation) :
    store.effective (operation :: rest) =
      if operation.drawsFirst || (store.perform operation).1.isOk then
        (operation, (store.perform operation).1) :: (store.perform operation).2.effective rest
      else (store.perform operation).2.effective rest := by
  rw [effective, transcript, performAll, List.zip_cons_cons, List.filter_cons]
  rfl

/-- **A run without what was refused**: the operations that count are
answered as before, and the last store is the same. -/
theorem performAll_effective (store : Store) (operations : List Operation) :
    store.performAll ((store.effective operations).map Prod.fst) =
      ((store.effective operations).map Prod.snd, (store.performAll operations).2) := by
  induction operations generalizing store with
  | nil => rfl
  | cons operation rest ih =>
    have hrest := ih (store.perform operation).2
    have hlast : (store.performAll (operation :: rest)).2 =
        ((store.perform operation).2.performAll rest).2 := rfl
    rw [Store.effective_cons, hlast]
    split
    · rw [List.map_cons, List.map_cons, Store.performAll]
      dsimp only
      rw [hrest]
    · rename_i hcounts
      -- it was refused, so the rest of the run begins with the same store
      rw [Bool.or_eq_true, not_or, Bool.not_eq_true, Bool.not_eq_true] at hcounts
      obtain ⟨hdraws, hrefused⟩ := hcounts
      cases hanswer : (store.perform operation).1 with
      | ok id =>
        rw [hanswer] at hrefused
        cases hrefused
      | error error =>
        rw [perform_refused hdraws hanswer] at hrest ⊢
        exact hrest

/-- **Refused operations leave no trace.** Graph, registry and sequence number
are as they were, and so is the source of ids but for what draws first; and a
run without its refused operations, but for those that draw first, gives the
other answers and the last store of the run with them. -/
theorem refused_without_trace (store : Store) :
    (∀ operation error after, store.perform operation = (.error error, after) →
      after.graph = store.graph ∧ after.registry = store.registry ∧
        after.nextSequence = store.nextSequence ∧
        (operation.drawsFirst = false → after.ids = store.ids)) ∧
    ∀ operations,
      store.performAll ((store.effective operations).map Prod.fst) =
        ((store.effective operations).map Prod.snd, (store.performAll operations).2) := by
  refine ⟨fun operation error after h => ?_, performAll_effective store⟩
  have hchange : Change store (.error error) after := by
    have hchange := perform_change store operation
    rwa [h] at hchange
  have hafter := hchange.refused_eq
  refine ⟨?_, ?_, ?_, fun hdraws => ?_⟩
  · rw [hafter]
  · rw [hafter]
  · rw [hafter]
  · have hsame : (store.perform operation).2 = store :=
      perform_refused hdraws (congrArg Prod.fst h)
    rw [h] at hsame
    exact congrArg Store.ids hsame

/-- A case at the top level and an edge between strangers are refused. The
edge has drawn the first id, so it counts; the case does not. -/
theorem refused_without_trace_strangers :
    (Store.empty .builtin ⟨Nat.toUInt32, 0⟩).performAll
        [.connect "a" "b" .primary, .addNode "group" .empty none] =
      ([.error (.structural (.nodeNotFound "a")), .ok (some "node_00000001")],
        ((Store.empty .builtin ⟨Nat.toUInt32, 0⟩).performAll
          [.addNode "case" .empty none, .connect "a" "b" .primary,
            .addNode "group" .empty none]).2) :=
  (refused_without_trace (.empty .builtin ⟨Nat.toUInt32, 0⟩)).2
    [.addNode "case" .empty none, .connect "a" "b" .primary, .addNode "group" .empty none]

end StepGraph
