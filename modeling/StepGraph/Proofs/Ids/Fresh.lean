import StepGraph.Ids.Source
import StepGraph.Proofs.Text.Digits

/-!
# New ids are new

Whatever the stream yields, the id that a source hands out is none of those
in use: a draw in use is dropped, and the id taken when draws run out is
longer than all of them (`next_not_mem`). Behind its stem it has an
underscore and digits, so it has no hyphen when its stem has none
(`hyphen_not_mem_next`).
-/

namespace StepGraph.IdSource

variable {used : List String} {stem id : String} {source : IdSource}

/-- No member of a list exceeds the maximum. -/
theorem le_foldl_max {lengths : List Nat} {start n : Nat} (h : n ∈ lengths ∨ n ≤ start) :
    n ≤ lengths.foldl max start := by
  induction lengths generalizing start with
  | nil => simpa using h
  | cons first rest ih =>
    rw [List.foldl_cons]
    refine ih ?_
    rcases h with h | h
    · rcases List.mem_cons.mp h with rfl | h
      · exact .inr (Nat.le_max_right _ _)
      · exact .inl h
    · exact .inr (Nat.le_trans h (Nat.le_max_left _ _))

/-- The id that is made long is in use nowhere. -/
theorem longId_not_mem : longId stem used ∉ used := by
  intro hmem
  have hle : (longId stem used).length ≤ (used.map String.length).foldl max 0 :=
    le_foldl_max (.inl (List.mem_map_of_mem hmem))
  simp only [longId, String.length_append, String.length_ofList, List.length_replicate] at hle
  omega

/-- The search ends with an id that is not in use, after any number of
draws. -/
theorem search_not_mem {fuel position : Nat} :
    (search source stem used fuel position).1 ∉ used := by
  induction fuel generalizing position with
  | zero => exact longId_not_mem
  | succ fuel ih =>
    rw [search]
    split
    · exact ih
    · rename_i hfree
      simpa using hfree

/-- **A new id is in use nowhere.** -/
theorem next_not_mem : (source.next stem used).1 ∉ used :=
  search_not_mem

/-- The search ends with an id without a hyphen. -/
theorem hyphen_not_mem_search (h : '-' ∉ stem.toList) {fuel position : Nat} :
    '-' ∉ (search source stem used fuel position).1.toList := by
  induction fuel generalizing position with
  | zero =>
    rw [search, longId]
    simp only [String.toList_append, String.toList_ofList, List.mem_append, not_or]
    exact ⟨⟨h, by decide⟩, fun hzero => absurd (List.eq_of_mem_replicate hzero) (by decide)⟩
  | succ fuel ih =>
    rw [search]
    split
    · exact ih
    · rw [candidate]
      simp only [String.toList_append, List.mem_append, not_or]
      exact ⟨⟨h, by decide⟩, Text.not_mem_hexText (by decide) (by decide) _ _⟩

/-- **A new id has no hyphen** but those of its stem. -/
theorem hyphen_not_mem_next (h : '-' ∉ stem.toList) : '-' ∉ (source.next stem used).1.toList :=
  hyphen_not_mem_search h

end StepGraph.IdSource
