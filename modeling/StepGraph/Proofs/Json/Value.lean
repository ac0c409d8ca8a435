import StepGraph.Proofs.Json.Spelling

/-!
# Values that come back

A value that is written and read comes back as long as no more arrays and
objects are nested in it than the reader has levels for, and then with its
members in order and its numbers as they are read (`json?_spelt`). Texts come
back as they were, and so does what is found under a name where all names are
different (`string?_get?_reread`).
-/

namespace StepGraph

variable {α : Type}

/-- Of entries with different keys the sorted list finds what the list of
entries finds. -/
theorem Keyed.lookup_foldl {entries sorted : List (String × α)}
    (h : (entries.map Prod.fst).Nodup) (key : String) :
    (entries.foldl (fun sorted entry => insert entry.1 entry.2 sorted) sorted).lookup key =
      (entries.lookup key).or (sorted.lookup key) := by
  induction entries generalizing sorted with
  | nil => rfl
  | cons entry rest ih =>
    obtain ⟨name, value⟩ := entry
    obtain ⟨hnew, hrest⟩ := List.nodup_cons.mp h
    rw [List.foldl_cons, ih hrest, lookup_insert, List.lookup_cons]
    by_cases hkey : key = name
    · subst hkey
      have hnone : rest.lookup key = none := by
        rw [List.lookup_eq_none_iff]
        exact fun entry hentry => bne_iff_ne.mpr fun heq =>
          hnew (List.mem_map.mpr ⟨entry, hentry, heq.symm⟩)
      rw [hnone, if_pos rfl, beq_self_eq_true]
      rfl
    · rw [if_neg hkey, beq_false_of_ne hkey]

theorem Keyed.lookup_ofList {entries : List (String × α)} (h : (entries.map Prod.fst).Nodup)
    (key : String) : (ofList entries).lookup key = entries.lookup key := by
  rw [ofList, lookup_foldl h]
  exact Option.or_none

namespace Json

variable {levels : Nat}

/-! ## Nesting and reading again -/

/-- **How many arrays and objects are nested** in a value, one inside the
other. -/
def depth : Json → Nat
  | array items => depthOfItems items + 1
  | object members => depthOfMembers members + 1
  | _ => 0
where
  depthOfItems : List Json → Nat
    | [] => 0
    | item :: rest => max item.depth (depthOfItems rest)
  depthOfMembers : List (String × Json) → Nat
    | [] => 0
    | (_, value) :: rest => max value.depth (depthOfMembers rest)

/-- **What a value is read as** when it has been written. -/
def reread : Json → Json
  | number value => number value.reread
  | array items => array (rereadItems items)
  | object members => ofMembers (rereadMembers members)
  | other => other
where
  rereadItems : List Json → List Json
    | [] => []
    | item :: rest => item.reread :: rereadItems rest
  rereadMembers : List (String × Json) → List (String × Json)
    | [] => []
    | (name, value) :: rest => (name, value.reread) :: rereadMembers rest

theorem itemsJson?_speltItems {items : List Json} (h : ∀ item ∈ items,
      item.spelt.json? levels = if item.depth ≤ levels then some item.reread else none) :
    Tree.json?.itemsJson? levels (spelt.speltItems items) =
      if depth.depthOfItems items ≤ levels then some (reread.rereadItems items) else none := by
  induction items with
  | nil => simp [spelt.speltItems, Tree.json?.itemsJson?, depth.depthOfItems, reread.rereadItems]
  | cons item rest ih =>
    obtain ⟨hitem, hrest⟩ := List.forall_mem_cons.mp h
    rw [spelt.speltItems, Tree.json?.itemsJson?, hitem, ih hrest, depth.depthOfItems,
      reread.rereadItems]
    simp only [max_le_iff]
    by_cases hdepth : item.depth ≤ levels <;>
      by_cases hdepths : depth.depthOfItems rest ≤ levels <;> simp [hdepth, hdepths]

theorem membersJson?_speltMembers {members : List (String × Json)} (h : ∀ member ∈ members,
      member.2.spelt.json? levels =
        if member.2.depth ≤ levels then some member.2.reread else none) :
    Tree.json?.membersJson? levels (spelt.speltMembers members) =
      if depth.depthOfMembers members ≤ levels then some (reread.rereadMembers members)
      else none := by
  induction members with
  | nil =>
    simp [spelt.speltMembers, Tree.json?.membersJson?, depth.depthOfMembers, reread.rereadMembers]
  | cons member rest ih =>
    obtain ⟨name, value⟩ := member
    obtain ⟨hvalue, hrest⟩ := List.forall_mem_cons.mp h
    rw [spelt.speltMembers, Tree.json?.membersJson?, hvalue, ih hrest, depth.depthOfMembers,
      reread.rereadMembers, textOf?_textParts]
    simp only [max_le_iff]
    by_cases hdepth : value.depth ≤ levels <;>
      by_cases hdepths : depth.depthOfMembers rest ≤ levels <;> simp [hdepth, hdepths]

/-- **A written value comes back** when it is not nested deeper than the
levels there are. -/
theorem json?_spelt (value : Json) (levels : Nat) :
    value.spelt.json? levels = if value.depth ≤ levels then some value.reread else none := by
  induction value using inductionOn generalizing levels with
  | null => rfl
  | bool value => rfl
  | number value =>
    rw [spelt, Tree.json?, value.number?_literal]
    rfl
  | string value =>
    rw [spelt, Tree.json?, textOf?_textParts]
    rfl
  | array items ih =>
    rw [spelt, Tree.json?, depth, reread]
    cases levels with
    | zero => rfl
    | succ levels =>
      rw [if_neg (Nat.succ_ne_zero levels), Nat.add_sub_cancel,
        itemsJson?_speltItems fun item hitem => ih item hitem levels]
      simp only [Nat.add_le_add_iff_right, apply_ite (Option.map array), Option.map_some,
        Option.map_none]
  | object members ih =>
    rw [spelt, Tree.json?, depth, reread]
    cases levels with
    | zero => rfl
    | succ levels =>
      rw [if_neg (Nat.succ_ne_zero levels), Nat.add_sub_cancel,
        membersJson?_speltMembers fun member hmember => ih member hmember levels]
      simp only [Nat.add_le_add_iff_right, apply_ite (Option.map ofMembers), Option.map_some,
        Option.map_none]

/-! ## What stays -/

@[simp] theorem string?_reread (value : Json) : value.reread.string? = value.string? := by
  cases value <;> rfl

/-- All members have different names, where the value is an object. -/
def DistinctNames : Json → Prop
  | object members => (members.map Prod.fst).Nodup
  | _ => True

theorem map_fst_rereadMembers (members : List (String × Json)) :
    (reread.rereadMembers members).map Prod.fst = members.map Prod.fst := by
  induction members with
  | nil => rfl
  | cons member rest ih =>
    obtain ⟨name, value⟩ := member
    rw [reread.rereadMembers, List.map_cons, ih, List.map_cons]

theorem lookup_rereadMembers (members : List (String × Json)) (name : String) :
    (reread.rereadMembers members).lookup name = (members.lookup name).map reread := by
  induction members with
  | nil => rfl
  | cons member rest ih =>
    obtain ⟨other, value⟩ := member
    rw [reread.rereadMembers, List.lookup_cons, List.lookup_cons, ih]
    cases name == other <;> rfl

/-- **What is found under a name** is read again. -/
theorem get?_reread {value : Json} (h : value.DistinctNames) (name : String) :
    value.reread.get? name = (value.get? name).map reread := by
  cases value with
  | object members =>
    rw [reread, ofMembers, get?, Keyed.lookup_ofList (by rwa [map_fst_rereadMembers]),
      lookup_rereadMembers, get?]
  | null => rfl
  | bool value => rfl
  | number value => rfl
  | string value => rfl
  | array items => rfl

/-- **A text that is found under a name stays.** -/
theorem string?_get?_reread {value : Json} (h : value.DistinctNames) (name : String) :
    (value.reread.get? name).bind string? = (value.get? name).bind string? := by
  rw [get?_reread h]
  cases value.get? name with
  | none => rfl
  | some found => exact string?_reread found

end Json

end StepGraph
