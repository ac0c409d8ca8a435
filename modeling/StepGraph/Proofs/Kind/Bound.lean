import StepGraph.Kind.Registry

/-!
# Tags bound to built-in kinds

A registry that begins with the built-in kinds and takes aliases binds tags
to built-in kinds only (`onlyBuiltins_withAliases`), so what it says of a
tag is a value of `Builtin` (`get?_eq`). What editing asks of a built-in
kind is read off here: the slots it declares are its fixed ones and, for a
switch, those its cases occupy; a case opens a slot, a switch accepts it.
-/

namespace StepGraph

namespace Builtin

/-- The slots that a built-in kind declares whatever it holds. -/
def fixedSlots : Builtin → List Slot
  | action => []
  | conditional => [.ifBranch, .elseBranch]
  | switch => [.defaultBranch]
  | caseNode => [.body]
  | group => [.body]

@[simp] theorem kind_tag (b : Builtin) : b.kind.tag = b.tag := by
  cases b <;> rfl

@[simp] theorem ofTag?_tag (b : Builtin) : ofTag? b.tag = some b := by
  cases b <;> rfl

/-- The tag of a built-in kind is its own. -/
theorem tag_of_ofTag?_eq_some {b : Builtin} {tag : String} (h : ofTag? tag = some b) :
    b.tag = tag := by
  simpa using List.find?_some h

/-- **The slots that a node declares**: a switch those of its cases, and
every node the fixed slots of its kind. -/
theorem declaredSlots_eq (b : Builtin) (node : Node) (view : Containment) :
    b.kind.declaredSlots node view =
      (if b = switch then view.caseSlots node.id else []) ++ b.fixedSlots := by
  cases b <;> rfl

/-- Only a case opens a slot, the one of its value. -/
theorem openedSlot_eq (b : Builtin) (payload : Payload) :
    b.kind.openedSlot payload =
      if b = caseNode then some (.caseBranch (caseValue payload)) else none := by
  cases b <;> rfl

/-- Only a switch accepts an opened slot, and only that of a case. -/
theorem acceptsOpenedSlot_eq (b : Builtin) (slot : Slot) :
    b.kind.acceptsOpenedSlot slot = (decide (b = switch) && slot.isCase) := by
  cases b <;> rfl

/-- No fixed slot is that of a case. -/
theorem isCase_of_mem_fixedSlots {b : Builtin} {slot : Slot} (h : slot ∈ b.fixedSlots) :
    slot.isCase = false := by
  cases b <;> simp only [fixedSlots, List.mem_cons, List.not_mem_nil, or_false] at h
  · obtain rfl | rfl := h <;> rfl
  all_goals subst h; rfl

end Builtin

namespace Registry

variable {registry : Registry} {tag : String}

/-- The built-in kind that a tag is bound to. -/
def builtin? (registry : Registry) (tag : String) : Option Builtin :=
  (registry.get? tag).bind fun kind => Builtin.ofTag? kind.tag

/-- Every tag is bound to a built-in kind or to none. -/
def OnlyBuiltins (registry : Registry) : Prop :=
  ∀ tag kind, registry.get? tag = some kind → ∃ b : Builtin, kind = b.kind

/-! ## Binding -/

theorem get?_insert {kind : Kind} {other : String} :
    (registry.insert tag kind).get? other =
      if other = tag then some kind else registry.get? other :=
  Keyed.lookup_insert

/-- Putting entries with different keys in place finds the entry that the
list has, and otherwise what was there before. -/
theorem lookup_foldl_insert {entries sorted : List (String × Kind)}
    (hkeys : (entries.map Prod.fst).Nodup) :
    (entries.foldl (fun sorted entry => Keyed.insert entry.1 entry.2 sorted) sorted).lookup tag =
      (entries.lookup tag).or (sorted.lookup tag) := by
  induction entries generalizing sorted with
  | nil => rfl
  | cons entry rest ih =>
    obtain ⟨hnew, hrest⟩ := List.nodup_cons.mp hkeys
    rw [List.foldl_cons, ih hrest, Keyed.lookup_insert, List.lookup_cons]
    by_cases h : tag = entry.1
    · -- no later entry has the key, so the first one stays
      have hnone : rest.lookup tag = none :=
        List.lookup_eq_none_iff.mpr fun other hother => by
          rw [bne_iff_ne, h]
          exact fun heq => hnew (heq ▸ List.mem_map_of_mem hother)
      rw [hnone, if_pos h, h, beq_self_eq_true, Option.none_or, Option.some_or]
    · rw [if_neg h, beq_false_of_ne h]

/-- **At first the built-in tags are bound**, each to its own kind. -/
theorem get?_builtin (tag : String) :
    Registry.builtin.get? tag = (Builtin.ofTag? tag).map Builtin.kind := by
  have hlookup (bs : List Builtin) :
      (bs.map fun b => (b.tag, b.kind)).lookup tag =
        (bs.find? (·.tag == tag)).map Builtin.kind := by
    induction bs with
    | nil => rfl
    | cons b bs ih =>
      rw [List.map_cons, List.lookup_cons, List.find?_cons, ih, Bool.beq_comm]
      split <;> rfl
  have hkeys : ((Builtin.all.map fun b => (b.tag, b.kind)).map Prod.fst).Nodup := by decide
  have hget : Registry.builtin.get? tag =
      ((Builtin.all.map fun b => (b.tag, b.kind)).lookup tag).or (List.lookup tag []) :=
    lookup_foldl_insert hkeys
  rw [hget, hlookup, Builtin.ofTag?, List.lookup_nil, Option.or_none]

/-- Without aliases a tag is bound to the kind whose tag it is. -/
theorem builtin?_builtin (tag : String) :
    Registry.builtin.builtin? tag = Builtin.ofTag? tag := by
  rw [builtin?, get?_builtin]
  cases Builtin.ofTag? tag with
  | none => rfl
  | some b => rw [Option.map_some, Option.bind_some, Builtin.kind_tag, Builtin.ofTag?_tag]

theorem onlyBuiltins_builtin : Registry.builtin.OnlyBuiltins := by
  intro tag kind h
  rw [get?_builtin, Option.map_eq_some_iff] at h
  obtain ⟨b, -, rfl⟩ := h
  exact ⟨b, rfl⟩

/-- An alias binds a tag to a built-in kind, or changes nothing. -/
theorem OnlyBuiltins.withAlias (h : registry.OnlyBuiltins) (target : String) :
    (registry.withAlias tag target).OnlyBuiltins := by
  rw [Registry.withAlias]
  split
  · rename_i b _
    intro other kind hget
    rw [get?_insert] at hget
    split at hget
    · exact ⟨b, (Option.some.inj hget).symm⟩
    · exact h other kind hget
  · exact h

theorem OnlyBuiltins.withAliases (h : registry.OnlyBuiltins) (pairs : List (String × String)) :
    (registry.withAliases pairs).OnlyBuiltins := by
  induction pairs generalizing registry with
  | nil => exact h
  | cons pair pairs ih => exact ih (h.withAlias pair.2)

/-- **Built-in kinds with aliases bind tags to built-in kinds only.** -/
theorem onlyBuiltins_withAliases (pairs : List (String × String)) :
    (Registry.builtin.withAliases pairs).OnlyBuiltins :=
  onlyBuiltins_builtin.withAliases pairs

/-- A tag bound to a built-in kind is bound to that one. -/
theorem builtin?_of_get? {b : Builtin} (h : registry.get? tag = some b.kind) :
    registry.builtin? tag = some b := by
  rw [builtin?, h, Option.bind_some, Builtin.kind_tag, Builtin.ofTag?_tag]

/-- **What a tag stands for** is the built-in kind that it is bound to. -/
theorem OnlyBuiltins.get?_eq (h : registry.OnlyBuiltins) (tag : String) :
    registry.get? tag = (registry.builtin? tag).map Builtin.kind := by
  cases hget : registry.get? tag with
  | none => rw [builtin?, hget, Option.bind_none, Option.map_none]
  | some kind =>
    obtain ⟨b, rfl⟩ := h tag kind hget
    rw [builtin?_of_get? hget, Option.map_some]

/-- A tag is bound to a built-in kind when it stands for it. -/
theorem OnlyBuiltins.builtin?_eq_some_iff (h : registry.OnlyBuiltins) {b : Builtin} :
    registry.builtin? tag = some b ↔ registry.get? tag = some b.kind := by
  refine ⟨fun hb => ?_, builtin?_of_get?⟩
  rw [h.get?_eq, hb, Option.map_some]

/-- A tag is bound to nothing when it stands for nothing. -/
theorem OnlyBuiltins.builtin?_eq_none_iff (h : registry.OnlyBuiltins) :
    registry.builtin? tag = none ↔ registry.get? tag = none := by
  rw [h.get?_eq, Option.map_eq_none_iff]

end Registry

end StepGraph
