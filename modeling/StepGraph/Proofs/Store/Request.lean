import Mathlib.Data.List.GetD
import StepGraph.Proofs.Store.Likeness
import StepGraph.Proofs.Store.Reachable

/-!
# Requests

Who does not know the ids that a store will draw can still name what was
created by the order of creation. A request is an operation in such names,
and a session is a store together with the ids of all that was created in it
(`Session.ask`). Two sessions over different sources of ids answer the same
requests alike, and compile to the same script (`sameRun_of_clear`), because
their stores stay alike under the recasting that sends the ids of one to
those of the other (`Paired`).

An id that is free again may be drawn again. A name whose id was given to
something created later no longer means one thing, so requests may only use
names that are clear (`Clear`), as all are while no id is drawn twice
(`Session.asksClearly_of_nodup`).
-/

namespace StepGraph

open List (Forall₂)

variable {r : Recast} {registry : Registry}

/-! ## Requests -/

/-- A slot of something created. -/
structure RequestScope where
  owner : Nat
  slot : Slot

/-- **An operation in names.** A name is a number: how many were created
before. -/
inductive Request where
  | addNode (kind : String) (payload : Payload) (scope : Option RequestScope)
  | addStep (step : Step) (scope : Option RequestScope)
  | removeNode (node : Nat)
  | moveNode (node : Nat) (position : Position)
  | connect (source target : Nat) (handle : Handle)
  | reconnect (edge source target : Nat) (handle : Handle)
  | disconnect (edge : Nat)
  | registerVariable (name displayName : String) (producer : Nat)
  | registerAssistant (name model personality : String)

namespace RequestScope

/-- The scope where names stand for these ids. -/
def scope (scope : RequestScope) (idOf : Nat → String) : Scope :=
  ⟨idOf scope.owner, scope.slot⟩

end RequestScope

namespace Request

/-- The operation where names stand for these ids. -/
def operation (idOf : Nat → String) : Request → Operation
  | addNode kind payload scope => .addNode kind payload (scope.map (·.scope idOf))
  | addStep step scope => .addStep step (scope.map (·.scope idOf))
  | removeNode node => .removeNode (idOf node)
  | moveNode node position => .moveNode (idOf node) position
  | connect source target handle => .connect (idOf source) (idOf target) handle
  | reconnect edge source target handle =>
    .reconnect (idOf edge) (idOf source) (idOf target) handle
  | disconnect edge => .disconnect (idOf edge)
  | registerVariable name displayName producer =>
    .registerVariable name displayName (idOf producer)
  | registerAssistant name model personality => .registerAssistant name model personality

/-- The names that a request uses. -/
def names : Request → List Nat
  | addNode _ _ scope => (scope.map RequestScope.owner).toList
  | addStep _ scope => (scope.map RequestScope.owner).toList
  | removeNode node => [node]
  | moveNode node _ => [node]
  | connect source target _ => [source, target]
  | reconnect edge source target _ => [edge, source, target]
  | disconnect edge => [edge]
  | registerVariable _ _ producer => [producer]
  | registerAssistant _ _ _ => []

variable {idOf idOf' : Nat → String} {r : Recast}

/-- An operation names the ids of the names. -/
theorem names_operation (request : Request) :
    (request.operation idOf).names = request.names.map idOf := by
  cases request with
  | addNode _ _ scope | addStep _ scope => cases scope <;> rfl
  | _ => rfl

/-- **Other ids for the names** recast the operation. -/
theorem recast_operation (request : Request) (hkinds : r.kinds = id)
    (hids : ∀ k ∈ request.names, r.ids (idOf k) = idOf' k) :
    (request.operation idOf).recast r = request.operation idOf' := by
  cases request with
  | addNode kind payload scope =>
    cases scope with
    | none => simp [operation, Operation.recast, hkinds]
    | some scope =>
      simp_all [operation, Operation.recast, names, RequestScope.scope, Recast.scope]
  | addStep step scope =>
    cases scope with
    | none => rfl
    | some scope =>
      simp_all [operation, Operation.recast, names, RequestScope.scope, Recast.scope]
  | registerAssistant => rfl
  | _ => simp_all [operation, Operation.recast, names]

end Request

/-! ## Names -/

/-- The id that a name stands for. -/
def idAt (created : List String) (k : Nat) : String :=
  created.getD k ""

/-- **A clear name**: nothing created later has the same id. -/
def Clear (created : List String) (k : Nat) : Prop :=
  idAt created k ∉ created.drop (k + 1)

instance (created : List String) (k : Nat) : Decidable (Clear created k) :=
  inferInstanceAs (Decidable (¬ _))

/-- **The ids of one thing in two sessions**: it has the same name in both,
and the name is clear. -/
def Counterparts (created created' : List String) (id id' : String) : Prop :=
  ∃ k, k < created.length ∧ Clear created k ∧ Clear created' k ∧
    idAt created k = id ∧ idAt created' k = id'

section Names

variable {created created' : List String} {k l : Nat} {id id' a a' b b' : String}

theorem idAt_append (hk : k < created.length) : idAt (created ++ [a]) k = idAt created k :=
  List.getD_append _ _ _ _ hk

theorem idAt_last : idAt (created ++ [a]) created.length = a := by
  rw [idAt, List.getD_append_right _ _ _ _ (Nat.le_refl _), Nat.sub_self]
  rfl

/-- A name stays clear unless its id is given away. -/
theorem clear_append_iff (hk : k < created.length) :
    Clear (created ++ [a]) k ↔ Clear created k ∧ idAt created k ≠ a := by
  rw [Clear, idAt_append hk, List.drop_append_of_le_length hk, List.mem_append,
    List.mem_singleton, not_or, Clear]

/-- The last name is clear. -/
theorem clear_last : Clear (created ++ [a]) created.length := by
  rw [Clear, List.drop_eq_nil_of_le (by rw [List.length_append, List.length_singleton])]
  exact List.not_mem_nil

/-- Of two names with one id the earlier is not clear. -/
theorem Clear.le_of_idAt_eq (h : Clear created k) (hl : l < created.length)
    (hsame : idAt created k = idAt created l) : l ≤ k := by
  by_contra hlt
  refine h (List.mem_iff_getElem.mpr ⟨l - (k + 1), ?_, ?_⟩)
  · rw [List.length_drop]
    omega
  · rw [List.getElem_drop, hsame, idAt, List.getD_eq_getElem _ _ hl]
    congr 1
    omega

/-- Names are clear while no id is drawn twice. -/
theorem clear_of_nodup (h : created.Nodup) (k : Nat) : Clear created k := by
  by_cases hk : k < created.length
  · rw [Clear, idAt, List.getD_eq_getElem _ _ hk]
    have hsplit : (created.drop k).Nodup := h.sublist (List.drop_sublist k created)
    rw [List.drop_eq_getElem_cons hk] at hsplit
    exact (List.nodup_cons.mp hsplit).1
  · rw [Clear, List.drop_eq_nil_of_le (by omega)]
    exact List.not_mem_nil

/-- **Counterparts rename**: each id has at most one, in both directions. -/
theorem Counterparts.eq_iff (hlength : created.length = created'.length)
    (h : Counterparts created created' a a') (h' : Counterparts created created' b b') :
    a = b ↔ a' = b' := by
  obtain ⟨k, hk, hclear, hclear', rfl, rfl⟩ := h
  obtain ⟨l, hl, hclearl, hclearl', rfl, rfl⟩ := h'
  constructor
  · intro hsame
    rw [Nat.le_antisymm (hclearl.le_of_idAt_eq hk hsame.symm) (hclear.le_of_idAt_eq hl hsame)]
  · intro hsame
    rw [Nat.le_antisymm (hclearl'.le_of_idAt_eq (hlength ▸ hk) hsame.symm)
      (hclear'.le_of_idAt_eq (hlength ▸ hl) hsame)]

/-- **Counterparts after something new**: the new ids are, and the others
are unless one of their ids is given away. -/
theorem counterparts_append_iff (hlength : created.length = created'.length) :
    Counterparts (created ++ [a]) (created' ++ [a']) id id' ↔
      Counterparts created created' id id' ∧ id ≠ a ∧ id' ≠ a' ∨ id = a ∧ id' = a' := by
  constructor
  · rintro ⟨k, hk, hclear, hclear', rfl, rfl⟩
    rw [List.length_append, List.length_singleton] at hk
    rcases Nat.lt_succ_iff_lt_or_eq.mp hk with hk | rfl
    · have hk' : k < created'.length := hlength ▸ hk
      rw [clear_append_iff hk] at hclear
      rw [clear_append_iff hk'] at hclear'
      rw [idAt_append hk, idAt_append hk']
      exact .inl ⟨⟨k, hk, hclear.1, hclear'.1, rfl, rfl⟩, hclear.2, hclear'.2⟩
    · exact .inr ⟨idAt_last, hlength ▸ idAt_last⟩
  · rintro (⟨⟨k, hk, hclear, hclear', rfl, rfl⟩, hne, hne'⟩ | ⟨rfl, rfl⟩)
    · have hk' : k < created'.length := hlength ▸ hk
      refine ⟨k, ?_, (clear_append_iff hk).mpr ⟨hclear, hne⟩,
        (clear_append_iff hk').mpr ⟨hclear', hne'⟩, idAt_append hk, idAt_append hk'⟩
      exact List.length_append ▸ Nat.lt_add_right _ hk
    · refine ⟨created.length, ?_, clear_last, hlength ▸ clear_last, idAt_last, hlength ▸ idAt_last⟩
      rw [List.length_append, List.length_singleton]
      exact Nat.lt_succ_self _

end Names

/-! ## Sessions -/

/-- A store, and the ids of all that was created in it, in order. -/
structure Session where
  store : Store
  created : List String

/-- What is answered to a request, if it is asked. -/
abbrev Answer := Option (Except EditError (Option String))

/-- The id of what an operation has created. -/
def createdBy : Except EditError (Option String) → List String
  | .ok (some id) => [id]
  | _ => []

namespace Session

/-- A session with an empty store. -/
def start (registry : Registry) (ids : IdSource) : Session :=
  ⟨.empty registry ids, []⟩

/-- **The answer to a request**, and the session after it. A request with a
name for which nothing was created is not asked. -/
def ask (session : Session) (request : Request) : Answer × Session :=
  if request.names.all (· < session.created.length) then
    let (answer, after) := session.store.perform (request.operation (idAt session.created))
    (some answer, ⟨after, session.created ++ createdBy answer⟩)
  else (none, session)

/-- The answers to requests in a row, each with the session after it. -/
def trace (session : Session) : List Request → List (Answer × Session)
  | [] => []
  | request :: rest => session.ask request :: trace (session.ask request).2 rest

/-- Which requests in a row are accepted and which are refused. -/
def accepted (session : Session) (requests : List Request) : List (Option Bool) :=
  (session.trace requests).map fun step => step.1.map Except.isOk

/-- The session after requests in a row. -/
def after (session : Session) : List Request → Session
  | [] => session
  | request :: rest => after (session.ask request).2 rest

/-- Every request uses clear names only. -/
def AsksClearly (session : Session) : List Request → Prop
  | [] => True
  | request :: rest =>
    (∀ k ∈ request.names, Clear session.created k) ∧ AsksClearly (session.ask request).2 rest

/-- Whether requests use clear names is found by asking them. -/
instance decidableAsksClearly (session : Session) :
    (requests : List Request) → Decidable (session.AsksClearly requests)
  | [] => isTrue trivial
  | request :: rest =>
    have := decidableAsksClearly (session.ask request).2 rest
    inferInstanceAs (Decidable (_ ∧ _))

variable {t t' : Session}

/-- No request touches the registry. -/
theorem registry_ask (t : Session) (request : Request) :
    (t.ask request).2.store.registry = t.store.registry := by
  rw [ask]
  split
  · exact (perform_change t.store (request.operation (idAt t.created))).registry_eq
  · rfl

theorem registry_after (t : Session) (requests : List Request) :
    (t.after requests).store.registry = t.store.registry := by
  induction requests generalizing t with
  | nil => rfl
  | cons request rest ih => exact (ih _).trans (registry_ask t request)

/-- **Requests take two numbers at most**, each of them. -/
theorem count_ask (t : Session) (request : Request) :
    t.store.nextSequence.count ≤ (t.ask request).2.store.nextSequence.count ∧
      (t.ask request).2.store.nextSequence.count ≤ t.store.nextSequence.count + 2 := by
  rw [ask]
  split
  · exact (perform_change t.store (request.operation (idAt t.created))).count_bounds
  · exact ⟨Nat.le_refl _, Nat.le_add_right _ _⟩

theorem count_after (t : Session) (requests : List Request) :
    t.store.nextSequence.count ≤ (t.after requests).store.nextSequence.count ∧
      (t.after requests).store.nextSequence.count ≤
        t.store.nextSequence.count + 2 * requests.length := by
  induction requests generalizing t with
  | nil => exact ⟨Nat.le_refl _, Nat.le_refl _⟩
  | cons request rest ih =>
    have hfirst := count_ask t request
    have hrest := ih (t.ask request).2
    rw [List.length_cons, after]
    omega

/-- A counter that is exact after requests was exact before. -/
theorem exact_of_after {requests : List Request}
    (h : (t.after requests).store.nextSequence.Exact) : t.store.nextSequence.Exact :=
  Counter.exact_iff.mpr (Nat.lt_of_le_of_lt (count_after t requests).1 (Counter.exact_iff.mp h))

/-- **A session with fewer than `2 ^ 63` requests** has an exact counter. -/
theorem exact_of_length_lt {ids : IdSource} {requests : List Request}
    (h : requests.length < 2 ^ 63) :
    ((start registry ids).after requests).store.nextSequence.Exact := by
  have hcount := (count_after (start registry ids) requests).2
  rw [show (start registry ids).store.nextSequence.count = 0 from Counter.count_zero] at hcount
  refine Counter.exact_iff.mpr (Nat.lt_of_le_of_lt hcount ?_)
  rw [show UInt64.size = 2 * 2 ^ 63 from rfl]
  omega

/-- Names keep their ids. -/
theorem created_prefix_ask (t : Session) (request : Request) :
    t.created <+: (t.ask request).2.created := by
  rw [ask]
  split
  · exact List.prefix_append _ _
  · exact List.prefix_rfl

theorem created_prefix_after (t : Session) (requests : List Request) :
    t.created <+: (t.after requests).created := by
  induction requests generalizing t with
  | nil => exact List.prefix_rfl
  | cons request rest ih => exact (created_prefix_ask t request).trans (ih _)

/-- **While no id is drawn twice** all names are clear. -/
theorem asksClearly_of_nodup {requests : List Request}
    (h : (t.after requests).created.Nodup) : t.AsksClearly requests := by
  induction requests generalizing t with
  | nil => trivial
  | cons request rest ih =>
    have hcreated : t.created.Nodup := h.sublist (created_prefix_after t (request :: rest)).sublist
    exact ⟨fun k _ => clear_of_nodup hcreated k, ih h⟩

end Session

/-! ## The same run -/

/-- **The same answer**, up to the ids of what both sessions have created. -/
def SameAnswer (step step' : Answer × Session) : Prop :=
  Option.Rel
    (Alike (EditError.Alike (Counterparts step.2.created step'.2.created) Eq)
      (Option.Rel (Counterparts step.2.created step'.2.created)))
    step.1 step'.1

/-- **The same script**, and the same diagnostics or faults up to the ids. -/
def SameScript (registry : Registry) (t t' : Session) : Prop :=
  ∀ comments,
    Alike
      (fun report report' =>
        Forall₂ (ConfigurationError.Alike (Counterparts t.created t'.created) Eq)
          report.errors report'.errors)
      (fun script script' => script.text = script'.text ∧
        Forall₂ (Diagnostic.Alike (Counterparts t.created t'.created) Eq)
          script.diagnostics script'.diagnostics)
      (t.store.graph.compile registry comments) (t'.store.graph.compile registry comments)

/-- **Two sessions in which requests do the same.** -/
structure SameRun (registry : Registry) (t t' : Session) (requests : List Request) : Prop where
  answers : Forall₂ SameAnswer (t.trace requests) (t'.trace requests)
  script : SameScript registry (t.after requests) (t'.after requests)

theorem SameAnswer.isOk_eq {step step' : Answer × Session} (h : SameAnswer step step') :
    step.1.map Except.isOk = step'.1.map Except.isOk := by
  obtain ⟨answer, t⟩ := step
  obtain ⟨answer', t'⟩ := step'
  cases h with
  | none => rfl
  | some hanswer => cases hanswer <;> rfl

/-- **A request is refused in both sessions** or in none. -/
theorem SameRun.accepted_eq {t t' : Session} {requests : List Request}
    (h : SameRun registry t t' requests) : t.accepted requests = t'.accepted requests := by
  rw [Session.accepted, Session.accepted, ← List.forall₂_eq_eq_eq, List.forall₂_map_left_iff,
    List.forall₂_map_right_iff]
  exact h.answers.imp fun _ _ => SameAnswer.isOk_eq

/-- **Two sessions that go on in step**: their stores are alike under a
recasting that sends each id to its counterpart. -/
structure Paired (r : Recast) (t t' : Session) : Prop where
  like : Likeness r t.store t'.store
  kinds : r.kinds = id
  length : t.created.length = t'.created.length
  recast : ∀ id id', Counterparts t.created t'.created id id' → r.ids id = id'
  /-- Whatever is in use has a clear name. -/
  used : ∀ id ∈ t.store.graph.usedIds, Counterparts t.created t'.created id (r.ids id)

namespace Paired

variable {t t' : Session} {after after' : Store}

/-- Two sessions begin in step. -/
theorem start (hreg : registry.OnlyBuiltins) (ids ids' : IdSource) :
    Paired ⟨Equiv.refl String, id, id, fun _ => rfl⟩ (.start registry ids)
      (.start registry ids') where
  like := ⟨rfl, fun _ => rfl, fun _ => rfl, Nat.le_refl _, fun _ hm => (by cases hm), hreg, hreg,
    Store.sound_empty, Store.sound_empty⟩
  kinds := rfl
  length := rfl
  recast id id' hpair := by
    obtain ⟨_, hk, -⟩ := hpair
    exact absurd hk (Nat.not_lt_zero _)
  used _ hid := by cases hid

/-- What creates nothing leaves the names as they are. -/
theorem stay (h : Paired r t t') (hlike : Likeness r after after')
    (hused : ∀ id ∈ after.graph.usedIds, id ∈ t.store.graph.usedIds) :
    Paired r ⟨after, t.created⟩ ⟨after', t'.created⟩ :=
  ⟨hlike, h.kinds, h.length, h.recast, fun id hid => h.used id (hused id hid)⟩

/-- **What is created** gets the next name, and its ids are counterparts. -/
theorem grow (h : Paired r t t') {a a' : String} (ha : a ∉ t.store.graph.usedIds)
    (ha' : a' ∉ t'.store.graph.usedIds) (hlike : Likeness (r.withId a a') after after')
    (hused : ∀ id ∈ after.graph.usedIds, id ∈ t.store.graph.usedIds ∨ id = a) :
    Paired (r.withId a a') ⟨after, t.created ++ [a]⟩ ⟨after', t'.created ++ [a']⟩ where
  like := hlike
  kinds := h.kinds
  length := by simp only [List.length_append, List.length_singleton, h.length]
  recast id id' hpair := by
    rcases (counterparts_append_iff h.length).mp hpair with ⟨hold, hne, hne'⟩ | ⟨rfl, rfl⟩
    · have hsame := h.recast id id' hold
      rw [Recast.withId_ids_of_ne hne (hsame ▸ hne'), hsame]
    · exact r.withId_ids_self id id'
  used id hid := by
    rw [counterparts_append_iff h.length]
    rcases hused id hid with hid | rfl
    · refine .inl ⟨?_, fun hsame => ha (hsame ▸ hid), fun hsame => ha' ?_⟩
      · rw [h.like.withId_ids ha ha' hid]
        exact h.used id hid
      · rw [← hsame, h.like.withId_ids ha ha' hid, h.like.graph, Recast.usedIds_graph]
        exact List.mem_map_of_mem hid
    · exact .inr ⟨rfl, r.withId_ids_self id a'⟩

/-- **A request in clear names** is answered the same, and the sessions stay
in step as long as the counter does not go round. -/
theorem ask (h : Paired r t t') (request : Request)
    (hclear : ∀ k ∈ request.names, Clear t.created k)
    (hclear' : ∀ k ∈ request.names, Clear t'.created k) :
    ((t.ask request).2.store.nextSequence.Exact →
        ∃ r', Paired r' (t.ask request).2 (t'.ask request).2) ∧
      SameAnswer (t.ask request) (t'.ask request) := by
  rw [Session.ask, Session.ask, ← h.length]
  split
  case isFalse => exact ⟨fun _ => ⟨r, h⟩, .none⟩
  case isTrue hnamed =>
    have hpairs : ∀ k ∈ request.names,
        Counterparts t.created t'.created (idAt t.created k) (idAt t'.created k) :=
      fun k hk => ⟨k, by simpa using List.all_eq_true.mp hnamed k hk, hclear k hk, hclear' k hk,
        rfl, rfl⟩
    have hstep := h.like.perform (R := Counterparts t.created t'.created) (K := Eq) h.used
      (fun tag => by rw [h.kinds, id_eq]) (request.operation (idAt t.created)) fun id hid => by
        rw [request.names_operation] at hid
        obtain ⟨k, hk, rfl⟩ := List.mem_map.mp hid
        rw [h.recast _ _ (hpairs k hk)]
        exact hpairs k hk
    rw [request.recast_operation h.kinds fun k hk => h.recast _ _ (hpairs k hk)] at hstep
    have hused := fun id (hid : id ∈ _) =>
      (perform_change t.store (request.operation (idAt t.created))).usedIds_mem hid
    generalize t.store.perform (request.operation (idAt t.created)) = out at hstep hused
    generalize t'.store.perform (request.operation (idAt t'.created)) = out' at hstep
    cases hstep with
    | refused he =>
      simp only [createdBy, List.append_nil]
      exact ⟨fun _ => ⟨r, h⟩, .some (.error he)⟩
    | refusedEdge he =>
      simp only [createdBy, List.append_nil]
      exact ⟨fun _ => ⟨r, h.stay (h.like.setIds _ _) fun _ hid => hid⟩, .some (.error he)⟩
    | changed hafter =>
      simp only [createdBy, List.append_nil]
      refine ⟨fun hexact => ⟨r, h.stay (hafter (.inr hexact)) fun id hid => ?_⟩,
        .some (.ok .none)⟩
      exact (hused id hid).resolve_right fun heq => (by cases heq)
    | created stem hafter =>
      have hnew hexact := h.grow IdSource.next_not_mem IdSource.next_not_mem
        (hafter (.inr hexact)) fun id hid => (hused id hid).imp_right fun heq => by cases heq; rfl
      exact ⟨fun hexact => ⟨_, hnew hexact⟩,
        .some (.ok (.some ((counterparts_append_iff h.length).mpr (.inr ⟨rfl, rfl⟩))))⟩

/-- **A run in clear names** is answered the same, as long as the counter does
not go round. -/
theorem askAll (h : Paired r t t') {requests : List Request} (hclear : t.AsksClearly requests)
    (hclear' : t'.AsksClearly requests)
    (hexact : (t.after requests).store.nextSequence.Exact) :
    (∃ r', Paired r' (t.after requests) (t'.after requests)) ∧
      Forall₂ SameAnswer (t.trace requests) (t'.trace requests) := by
  induction requests generalizing r t t' with
  | nil => exact ⟨⟨r, h⟩, .nil⟩
  | cons request rest ih =>
    obtain ⟨hnext, hanswer⟩ := h.ask request hclear.1 hclear'.1
    obtain ⟨_, hafter⟩ := hnext (Session.exact_of_after hexact)
    obtain ⟨hlast, hanswers⟩ := ih hafter hclear.2 hclear'.2 hexact
    exact ⟨hlast, .cons hanswer hanswers⟩

/-- Sessions in step compile to the same script. -/
theorem script (h : Paired r t t') (hregistry : t.store.registry = registry)
    (hregistry' : t'.store.registry = registry) : SameScript registry t t' := by
  intro comments
  have hcompile := h.like.compile (R := Counterparts t.created t'.created) (K := Eq)
    (fun n hn => h.used n.id (List.mem_append_left _ (List.mem_map_of_mem hn)))
    (fun tag => by rw [h.kinds, id_eq]) comments
  rwa [hregistry, hregistry'] at hcompile

end Paired

/-- **The script does not depend on the ids.** Two sessions over any sources
of ids answer the same requests alike and compile to the same script, as long
as the requests use names that are clear in both and the counter stays below
`2 ^ 64`, which takes `2 ^ 63` requests to leave. -/
theorem sameRun_of_clear (aliases : List (String × String)) (ids ids' : IdSource)
    {requests : List Request}
    (hclear : (Session.start (Registry.builtin.withAliases aliases) ids).AsksClearly requests)
    (hclear' : (Session.start (Registry.builtin.withAliases aliases) ids').AsksClearly requests)
    (hexact : ((Session.start (Registry.builtin.withAliases aliases) ids).after
      requests).store.nextSequence.Exact) :
    SameRun (Registry.builtin.withAliases aliases)
      (.start (Registry.builtin.withAliases aliases) ids)
      (.start (Registry.builtin.withAliases aliases) ids') requests := by
  have hstart := Paired.start (Registry.onlyBuiltins_withAliases aliases) ids ids'
  obtain ⟨⟨_, hlast⟩, hanswers⟩ := hstart.askAll hclear hclear' hexact
  exact ⟨hanswers, hlast.script (Session.registry_after _ _) (Session.registry_after _ _)⟩

/-- Two sources of ids, of which one draws every word twice. A node comes
again under the id of one that was removed; the requests after that name the
new one only, and the last is refused in both sessions. -/
theorem sameRun_withRedrawnId :
    SameRun Registry.builtin (.start Registry.builtin ⟨fun n => (n / 2).toUInt32, 0⟩)
      (.start Registry.builtin ⟨Nat.toUInt32, 0⟩)
      [.addNode "group" .empty none, .removeNode 0, .addNode "group" .empty none,
        .addNode "action" .empty (some ⟨1, .body⟩), .removeNode 1, .removeNode 2] :=
  sameRun_of_clear [] ⟨fun n => (n / 2).toUInt32, 0⟩ ⟨Nat.toUInt32, 0⟩ (by decide)
    (Session.asksClearly_of_nodup (by decide)) (Session.exact_of_length_lt (by decide))

/-- A node comes and goes, another comes, and the first is removed again. -/
def Request.removingAgain : List Request :=
  [.addNode "action" .empty none, .removeNode 0, .addNode "action" .empty none, .removeNode 0]

/-- **A name that is not clear.** Under this seed both nodes have the same id,
so the first name removes the second node. Where ids are counted it is
refused. -/
theorem not_sameRun_removingAgain :
    (Session.start Registry.builtin (.seeded 22042597640)).accepted Request.removingAgain =
        [some true, some true, some true, some true] ∧
      (Session.start Registry.builtin ⟨Nat.toUInt32, 0⟩).accepted Request.removingAgain =
        [some true, some true, some true, some false] ∧
      ¬ SameRun Registry.builtin (.start Registry.builtin (.seeded 22042597640))
        (.start Registry.builtin ⟨Nat.toUInt32, 0⟩) Request.removingAgain := by
  have hseed : (Session.start Registry.builtin (.seeded 22042597640)).accepted
      Request.removingAgain = [some true, some true, some true, some true] := by decide +kernel
  have hcount : (Session.start Registry.builtin ⟨Nat.toUInt32, 0⟩).accepted
      Request.removingAgain = [some true, some true, some true, some false] := by decide
  refine ⟨hseed, hcount, fun h => ?_⟩
  have hsame := h.accepted_eq
  rw [hseed, hcount] at hsame
  exact absurd hsame (by decide)

end StepGraph
