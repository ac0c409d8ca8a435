/-!
# Lists sorted by key

Entries under texts as keys, in the order of the keys and one of a key. An
entry that is put in takes the place of the one that had its key. Texts are
compared character by character, by code point.
-/

namespace StepGraph.Keyed

/-- The keys increase from entry to entry, so none stands there twice. -/
def Sorted (entries : List (String × α)) : Prop :=
  entries.Pairwise fun a b => a.1 < b.1

/-- Put an entry in its place. -/
def insert (key : String) (value : α) : List (String × α) → List (String × α)
  | [] => [(key, value)]
  | (other, old) :: rest =>
    if key < other then (key, value) :: (other, old) :: rest
    else if key = other then (key, value) :: rest
    else (other, old) :: insert key value rest

/-- The entries after an insertion are the new one and old ones. -/
theorem mem_insert {key : String} {value : α} {entries : List (String × α)}
    {entry : String × α} (h : entry ∈ insert key value entries) :
    entry = (key, value) ∨ entry ∈ entries := by
  induction entries with
  | nil => simpa [insert] using h
  | cons first rest ih =>
    obtain ⟨other, old⟩ := first
    simp only [insert] at h
    split at h
    · simpa using h
    · split at h
      · rcases List.mem_cons.mp h with h | h
        · exact .inl h
        · exact .inr (List.mem_cons_of_mem _ h)
      · rcases List.mem_cons.mp h with h | h
        · exact .inr (h ▸ List.mem_cons_self)
        · rcases ih h with h | h
          · exact .inl h
          · exact .inr (List.mem_cons_of_mem _ h)

/-- **Insertion keeps a list sorted.** -/
theorem sorted_insert {key : String} {value : α} {entries : List (String × α)}
    (h : Sorted entries) : Sorted (insert key value entries) := by
  induction entries with
  | nil => simp [Sorted, insert]
  | cons first rest ih =>
    obtain ⟨other, old⟩ := first
    have hfirst := (List.pairwise_cons.mp h).1
    have hrest := (List.pairwise_cons.mp h).2
    simp only [insert]
    split
    · rename_i hlt
      refine List.pairwise_cons.mpr ⟨fun entry hmem => ?_, h⟩
      rcases List.mem_cons.mp hmem with hmem | hmem
      · exact hmem ▸ hlt
      · exact String.lt_trans hlt (hfirst entry hmem)
    · split
      · rename_i heq
        exact List.pairwise_cons.mpr ⟨fun entry hmem => heq ▸ hfirst entry hmem, hrest⟩
      · rename_i hnlt hne
        refine List.pairwise_cons.mpr ⟨fun entry hmem => ?_, ih hrest⟩
        rcases mem_insert hmem with hmem | hmem
        · subst hmem
          exact Classical.byContradiction fun hngt =>
            hne (String.le_antisymm (String.not_lt.mp hngt) (String.not_lt.mp hnlt))
        · exact hfirst entry hmem

/-- After an insertion the key finds the new value, and every other key what
it found before. -/
theorem lookup_insert {key other : String} {value : α} {entries : List (String × α)} :
    (insert key value entries).lookup other =
      if other = key then some value else entries.lookup other := by
  induction entries with
  | nil =>
    by_cases h : other = key
    · simp [insert, h]
    · simp [insert, h, List.lookup_cons, beq_false_of_ne h]
  | cons first rest ih =>
    obtain ⟨name, old⟩ := first
    simp only [insert]
    split
    · by_cases h : other = key
      · simp [h]
      · simp [List.lookup_cons, h, beq_false_of_ne h]
    · split
      · rename_i heq
        subst heq
        by_cases h : other = key
        · simp [h]
        · simp [List.lookup_cons, h, beq_false_of_ne h]
      · rename_i hne
        by_cases h : other = name
        · subst h
          simp [Ne.symm hne]
        · simp [List.lookup_cons, beq_false_of_ne h, ih]

/-- The sorted list of entries that come in any order; of several under one
key the last stays. -/
def ofList (entries : List (String × α)) : List (String × α) :=
  entries.foldl (fun sorted entry => insert entry.1 entry.2 sorted) []

theorem sorted_foldl {entries sorted : List (String × α)} (h : Sorted sorted) :
    Sorted (entries.foldl (fun sorted entry => insert entry.1 entry.2 sorted) sorted) := by
  induction entries generalizing sorted with
  | nil => exact h
  | cons entry rest ih => exact ih (sorted_insert h)

theorem sorted_ofList (entries : List (String × α)) : Sorted (ofList entries) :=
  sorted_foldl .nil

/-- What comes behind all entries is put behind them. -/
theorem insert_last {key : String} {value : α} {entries : List (String × α)}
    (h : ∀ entry ∈ entries, entry.1 < key) :
    insert key value entries = entries ++ [(key, value)] := by
  induction entries with
  | nil => rfl
  | cons first rest ih =>
    obtain ⟨other, old⟩ := first
    obtain ⟨hfirst, hrest⟩ := List.forall_mem_cons.mp h
    have hne : key ≠ other := fun heq => String.lt_irrefl other (heq ▸ hfirst)
    have hnlt : ¬ key < other := fun hlt => String.lt_irrefl _ (String.lt_trans hfirst hlt)
    rw [insert, if_neg hnlt, if_neg hne, ih hrest, List.cons_append]

theorem foldl_of_sorted {entries sorted : List (String × α)} (h : Sorted (sorted ++ entries)) :
    entries.foldl (fun sorted entry => insert entry.1 entry.2 sorted) sorted =
      sorted ++ entries := by
  induction entries generalizing sorted with
  | nil => exact (List.append_nil sorted).symm
  | cons entry rest ih =>
    have hlast : ∀ other ∈ sorted, other.1 < entry.1 := fun other hother =>
      (List.pairwise_append.mp h).2.2 other hother entry List.mem_cons_self
    have happend : sorted ++ entry :: rest = sorted ++ [(entry.1, entry.2)] ++ rest := by
      rw [List.append_assoc, List.singleton_append]
    rw [List.foldl_cons, insert_last hlast, ih (happend ▸ h), happend]

/-- **A sorted list is its own sorted list.** -/
theorem ofList_of_sorted {entries : List (String × α)} (h : Sorted entries) :
    ofList entries = entries :=
  foldl_of_sorted h

example : ofList [("b", 1), ("a", 2), ("b", 3)] = [("a", 2), ("b", 3)] := by decide

end StepGraph.Keyed
