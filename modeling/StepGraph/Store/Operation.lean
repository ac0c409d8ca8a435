import StepGraph.Store.Edit

/-!
# Operations

An operation is an edit as data, so that a run of a store is a list. The
answer to an operation is the id of what it created, where it created
something.
-/

namespace StepGraph

/-- An edit with its arguments. -/
inductive Operation where
  | addNode (kind : String) (payload : Payload) (scope : Option Scope)
  | addStep (step : Step) (scope : Option Scope)
  | removeNode (id : String)
  | moveNode (id : String) (position : Position)
  | connect (source target : String) (handle : Handle)
  | reconnect (id source target : String) (handle : Handle)
  | disconnect (id : String)
  | registerVariable (name displayName producer : String)
  | registerAssistant (name model personality : String)

namespace Operation

/-- The edit that an operation stands for. -/
def edit : Operation → Edit (Option String)
  | addNode kind payload scope => some <$> Edit.addNode kind payload scope
  | addStep step scope => some <$> Edit.addStep step scope
  | removeNode id => (fun _ => none) <$> Edit.removeNode id
  | moveNode id position => (fun _ => none) <$> Edit.moveNode id position
  | connect source target handle => some <$> Edit.connect source target handle
  | reconnect id source target handle => (fun _ => none) <$> Edit.reconnect id source target handle
  | disconnect id => (fun _ => none) <$> Edit.disconnect id
  | registerVariable name displayName producer =>
    (fun _ => none) <$> Edit.registerVariable name displayName producer
  | registerAssistant name model personality =>
    (fun _ => none) <$> Edit.registerAssistant name model personality

end Operation

namespace Store

/-- The answer to an operation, and the store after it. -/
def perform (store : Store) (operation : Operation) :
    Except EditError (Option String) × Store :=
  operation.edit.run store

/-- The answers to operations in a row, and the store after the last. -/
def performAll (store : Store) : List Operation → List (Except EditError (Option String)) × Store
  | [] => ([], store)
  | operation :: rest =>
    let (answer, after) := store.perform operation
    let (answers, last) := after.performAll rest
    (answer :: answers, last)

end Store

end StepGraph
