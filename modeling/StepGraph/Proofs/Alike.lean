import StepGraph.Script.Compilation
import Mathlib.Data.List.Forall2

/-!
# Answers that are alike

Two runs may use different ids for the same nodes, or different tags for the
same kinds. Their answers are compared up to a relation of ids and a relation
of kinds: both succeed with related results, or both are refused for the same
cause (`Alike`). Nothing but the ids and the kinds in a refusal may differ,
and with equality for both relations nothing at all (`EditError.Alike.eq`).
Scripts have no ids in them: those of graphs that are alike have the same
text (`Fragment.Alike`, `Graph.compile_alike`).
-/

namespace StepGraph

open List (Forall₂)

variable {ε ε' α α' β β' : Type}

/-- **Two computations that may refuse end alike.** -/
inductive Alike (E : ε → ε' → Prop) (V : α → α' → Prop) : Except ε α → Except ε' α' → Prop
  | error {e : ε} {e' : ε'} : E e e' → Alike E V (.error e) (.error e')
  | ok {a : α} {a' : α'} : V a a' → Alike E V (.ok a) (.ok a')

namespace Alike

variable {E : ε → ε' → Prop} {V : α → α' → Prop} {W : β → β' → Prop}
variable {x : Except ε α} {y : Except ε' α'}

/-- A computation ends like itself. -/
theorem refl {E : ε → ε → Prop} {V : α → α → Prop} (hE : ∀ e, E e e) (hV : ∀ a, V a a)
    (x : Except ε α) : Alike E V x x := by
  cases x with
  | error e => exact .error (hE e)
  | ok a => exact .ok (hV a)

/-- What is alike to a refusal is a refusal. -/
theorem exists_error {e : ε} (h : Alike E V (.error e) y) : ∃ e', y = .error e' ∧ E e e' := by
  cases h with
  | error he => exact ⟨_, rfl, he⟩

/-- What is alike to a result is a result. -/
theorem exists_ok {a : α} (h : Alike E V (.ok a) y) : ∃ a', y = .ok a' ∧ V a a' := by
  cases h with
  | ok hv => exact ⟨_, rfl, hv⟩

/-- What ends alike ends alike up to weaker relations. -/
theorem imp {E' : ε → ε' → Prop} {V' : α → α' → Prop} (h : Alike E V x y)
    (hE : ∀ e e', E e e' → E' e e') (hV : ∀ a a', V a a' → V' a a') : Alike E' V' x y := by
  cases h with
  | error he => exact .error (hE _ _ he)
  | ok hv => exact .ok (hV _ _ hv)

/-- Alike steps, each followed by alike steps, are alike. -/
theorem bind (h : Alike E V x y) {f : α → Except ε β} {g : α' → Except ε' β'}
    (hfg : ∀ a a', V a a' → Alike E W (f a) (g a')) : Alike E W (x >>= f) (y >>= g) := by
  cases h with
  | error he => exact .error he
  | ok hv => exact hfg _ _ hv

/-- Steps with the same result hand it to the next ones. -/
theorem bind_same {y : Except ε' α} (h : Alike E Eq x y) {f : α → Except ε β}
    {g : α → Except ε' β'} (hfg : ∀ a, Alike E W (f a) (g a)) : Alike E W (x >>= f) (y >>= g) :=
  h.bind fun a _ ha => ha ▸ hfg a

/-- Results of a list are the same when those of each entry are. -/
theorem mapM {f : α → Except ε β} {g : α → Except ε' β} (l : List α)
    (h : ∀ a ∈ l, Alike E Eq (f a) (g a)) : Alike E Eq (l.mapM f) (l.mapM g) := by
  induction l with
  | nil => exact .ok rfl
  | cons a rest ih =>
    rw [List.mapM_cons, List.mapM_cons]
    refine (h a List.mem_cons_self).bind_same fun b => ?_
    exact (ih fun a ha => h a (List.mem_cons_of_mem _ ha)).bind_same fun bs => .ok rfl

/-- Checks of two lists end alike when those of their entries do. -/
theorem forM {f : α → Except ε Unit} {g : α' → Except ε' Unit} {l : List α} {l' : List α'}
    (h : Forall₂ (fun a a' => Alike E Eq (f a) (g a')) l l') : Alike E Eq (l.forM f) (l'.forM g) := by
  induction h with
  | nil => exact .ok rfl
  | @cons a a' rest rest' hfirst _ ih =>
    change Alike E Eq (f a >>= fun _ => rest.forM f) (g a' >>= fun _ => rest'.forM g)
    exact hfirst.bind_same fun _ => ih

/-- What ends alike shows the same where related refusals are the same and
related results show the same. -/
theorem map_eq {x y : Except ε α} {E : ε → ε → Prop} {V : α → α → Prop} (h : Alike E V x y)
    {f : α → β} (hE : ∀ e e', E e e' → e = e') (hV : ∀ a a', V a a' → f a = f a') :
    x.map f = y.map f := by
  cases h with
  | error he => exact congrArg Except.error (hE _ _ he)
  | ok hv => exact congrArg Except.ok (hV _ _ hv)

end Alike

variable (R K : String → String → Prop)

/-! ## Refusals -/

/-- **The same fault of the structure**, up to ids and kinds. Why a case may
not be somewhere is a text, in which the id of the owner may differ. -/
inductive StructureError.Alike : StructureError → StructureError → Prop
  | scopeNotFound {a b : String} : R a b → Alike (.scopeNotFound a) (.scopeNotFound b)
  | undeclaredSlot {a b k l : String} (slot : String) : R a b → K k l →
      Alike (.undeclaredSlot a k slot) (.undeclaredSlot b l slot)
  | nodeNotFound {a b : String} : R a b → Alike (.nodeNotFound a) (.nodeNotFound b)
  | edgeNotFound {a b : String} : R a b → Alike (.edgeNotFound a) (.edgeNotFound b)
  | duplicateId {a b : String} : R a b → Alike (.duplicateId a) (.duplicateId b)
  | duplicateCase {a b : String} (value : String) : R a b →
      Alike (.duplicateCase a value) (.duplicateCase b value)
  | cyclicContainment {a b c d : String} : R a b → R c d →
      Alike (.cyclicContainment a c) (.cyclicContainment b d)
  | invalidHandle {k l : String} (handle : String) : K k l →
      Alike (.invalidHandle k handle) (.invalidHandle l handle)
  | caseAtTop (slot : Slot) :
      Alike (.invalidCaseScope (slot.text ++ " cannot be placed at the top level"))
        (.invalidCaseScope (slot.text ++ " cannot be placed at the top level"))
  | caseElsewhere {a b : String} (slot other : Slot) : R a b →
      Alike
        (.invalidCaseScope
          (slot.text ++ " was placed in the " ++ other.text ++ " slot of '" ++ a ++ "'"))
        (.invalidCaseScope
          (slot.text ++ " was placed in the " ++ other.text ++ " slot of '" ++ b ++ "'"))
  | noCase {a b : String} (slot : Slot) : R a b →
      Alike
        (.invalidCaseScope
          ("only case nodes may occupy the " ++ slot.text ++ " slot of '" ++ a ++ "'"))
        (.invalidCaseScope
          ("only case nodes may occupy the " ++ slot.text ++ " slot of '" ++ b ++ "'"))

/-- **The same fault of a configuration**, up to ids and kinds. -/
inductive ConfigurationError.Alike : ConfigurationError → ConfigurationError → Prop
  | invalidConfig {a b k l : String} (reason : String) : R a b → K k l →
      Alike (.invalidConfig a k reason) (.invalidConfig b l reason)
  | missingField {a b : String} (field : String) : R a b →
      Alike (.missingField a field) (.missingField b field)
  | noComparisons {a b : String} : R a b → Alike (.noComparisons a) (.noComparisons b)
  | connectorMismatch {a b : String} (comparisons connectors : Nat) : R a b →
      Alike (.connectorMismatch a comparisons connectors)
        (.connectorMismatch b comparisons connectors)
  | noCases {a b : String} : R a b → Alike (.noCases a) (.noCases b)
  | unknownVariable (name : String) : Alike (.unknownVariable name) (.unknownVariable name)
  | unknownAssistant (name : String) : Alike (.unknownAssistant name) (.unknownAssistant name)

/-- **The same refusal of an edit**, up to ids and kinds. -/
inductive EditError.Alike : EditError → EditError → Prop
  | structural {e e' : StructureError} : StructureError.Alike R K e e' →
      Alike (.structural e) (.structural e')
  | naming (e : NamingError) : Alike (.naming e) (.naming e)
  | configuration {e e' : ConfigurationError} : ConfigurationError.Alike R K e e' →
      Alike (.configuration e) (.configuration e')

/-- **The same diagnostic**, up to ids and kinds. -/
inductive Diagnostic.Alike : Diagnostic → Diagnostic → Prop
  | unknownKind {a b k l : String} : R a b → K k l → Alike (.unknownKind a k) (.unknownKind b l)
  | rejected {e e' : ConfigurationError} : ConfigurationError.Alike R K e e' →
      Alike (.rejected e) (.rejected e')

/-! ## The same ids and kinds -/

theorem StructureError.Alike.eq {e e' : StructureError} (h : Alike Eq Eq e e') : e = e' := by
  cases h <;> simp_all

theorem ConfigurationError.Alike.eq {e e' : ConfigurationError} (h : Alike Eq Eq e e') :
    e = e' := by
  cases h <;> simp_all

theorem ConfigurationError.Alike.refl (e : ConfigurationError) : Alike Eq Eq e e := by
  cases e <;> constructor <;> rfl

/-- **With the same ids and kinds refusals are the same.** -/
theorem EditError.Alike.eq {e e' : EditError} (h : Alike Eq Eq e e') : e = e' := by
  cases h with
  | structural h => rw [h.eq]
  | naming e => rfl
  | configuration h => rw [h.eq]

theorem Diagnostic.Alike.eq {d d' : Diagnostic} (h : Alike Eq Eq d d') : d = d' := by
  cases h with
  | unknownKind ha hk => rw [ha, hk]
  | rejected h => rw [h.eq]

/-- With the same ids and kinds lists of diagnostics are the same. -/
theorem Diagnostic.Alike.eq_list {ds ds' : List Diagnostic} (h : Forall₂ (Alike Eq Eq) ds ds') :
    ds = ds' := by
  rw [← List.forall₂_eq_eq_eq]
  exact h.imp fun _ _ hd => hd.eq

/-! ## Scripts -/

variable {R K}

/-- **The same script and the same diagnostics**, up to ids and kinds. -/
structure Fragment.Alike (R K : String → String → Prop) (f f' : Fragment) : Prop where
  code : f.code = f'.code
  diagnostics : Forall₂ (Diagnostic.Alike R K) (f.visits.filterMap Visit.diagnostic?)
    (f'.visits.filterMap Visit.diagnostic?)

/-- Fragments one after the other. -/
theorem Fragment.Alike.join {fs fs' : List Fragment} (h : Forall₂ (Fragment.Alike R K) fs fs') :
    Fragment.Alike R K (.join fs) (.join fs') where
  code := by
    have hcodes : fs.map Fragment.code = fs'.map Fragment.code := by
      rw [← List.forall₂_eq_eq_eq]
      exact List.rel_map (fun _ _ hf => hf.code) h
    rw [Fragment.join, Fragment.join, hcodes]
  diagnostics := by
    rw [Fragment.join, Fragment.join, List.filterMap_flatMap, List.filterMap_flatMap]
    exact List.rel_flatMap h fun _ _ hf => hf.diagnostics

/-- **Putting a node's script together** from fragments of its slots that
are alike. -/
theorem Generation.assemble_alike {setting setting' : Setting} {node node' : Node}
    {kind kind' : Kind} {slots slots' : List (Slot × Fragment)}
    (hcomments : setting.comments = setting'.comments)
    (hlabel : node.payload.label = node'.payload.label)
    (hcompile : ∀ bodies, Alike (ConfigurationError.Alike R K) Eq (kind.compile node bodies)
      (kind'.compile node' bodies))
    (hslots : Forall₂ (fun s s' => s.1 = s'.1 ∧ Fragment.Alike R K s.2 s'.2) slots slots') :
    Fragment.Alike R K (assemble setting node kind slots)
      (assemble setting' node' kind' slots') := by
  have hbodies : slots.map (fun slot => SlotBody.mk slot.1 slot.2.code) =
      slots'.map fun slot => ⟨slot.1, slot.2.code⟩ := by
    rw [← List.forall₂_eq_eq_eq]
    exact List.rel_map (fun s s' hs => by rw [hs.1, hs.2.code]) hslots
  have hvisits : Forall₂ (Diagnostic.Alike R K)
      ((slots.flatMap fun slot => slot.2.visits).filterMap Visit.diagnostic?)
      ((slots'.flatMap fun slot => slot.2.visits).filterMap Visit.diagnostic?) := by
    rw [List.filterMap_flatMap, List.filterMap_flatMap]
    exact List.rel_flatMap hslots fun _ _ hs => hs.2.diagnostics
  have hanswer := hcompile (slots'.map fun slot => ⟨slot.1, slot.2.code⟩)
  rw [assemble, assemble, hbodies, hcomments, hlabel]
  generalize kind.compile node (slots'.map fun slot => ⟨slot.1, slot.2.code⟩) = answer at hanswer
  generalize kind'.compile node' (slots'.map fun slot => ⟨slot.1, slot.2.code⟩) = answer'
    at hanswer
  cases hanswer with
  | error he =>
    refine ⟨rfl, ?_⟩
    dsimp only
    rw [List.filterMap_append, List.filterMap_append]
    exact List.rel_append hvisits (.cons (.rejected he) .nil)
  | ok hcode =>
    subst hcode
    refine ⟨rfl, ?_⟩
    dsimp only
    rw [List.filterMap_append, List.filterMap_append]
    exact List.rel_append hvisits .nil

/-- **Compiling graphs that are alike.** Where the faults of two graphs are
related and neither or both have some, both are refused for related faults,
or both have the same script and skip the same nodes. -/
theorem Graph.compile_alike {F : List ConfigurationError → List ConfigurationError → Prop}
    {g g' : Graph} {registry registry' : Registry} {comments : Bool}
    (hfaults : F (g.faults registry) (g'.faults registry'))
    (hvalid : g.faults registry = [] ↔ g'.faults registry' = [])
    (hfragment : Fragment.Alike R K
      (Generation.graphFragment ⟨registry, g.containment, comments⟩)
      (Generation.graphFragment ⟨registry', g'.containment, comments⟩)) :
    StepGraph.Alike (fun report report' => F report.errors report'.errors)
      (fun script script' => script.text = script'.text ∧
        Forall₂ (Diagnostic.Alike R K) script.diagnostics script'.diagnostics)
      (g.compile registry comments) (g'.compile registry' comments) := by
  rw [compile, compile, validate, validate]
  generalize g.faults registry = faults at hfaults hvalid
  generalize g'.faults registry' = faults' at hfaults hvalid
  cases faults with
  | nil =>
    obtain rfl := hvalid.mp rfl
    refine .ok ⟨?_, hfragment.diagnostics⟩
    exact congrArg (fun body => Script.preamble ++ body ++ Script.postamble) hfragment.code
  | cons fault rest =>
    cases faults' with
    | nil => exact absurd (hvalid.mpr rfl) (List.cons_ne_nil _ _)
    | cons fault' rest' => exact .error hfaults

end StepGraph
