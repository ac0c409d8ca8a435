import StepGraph.Proofs.Names.Table

/-!
# Tables that are edited

A table that is edited answers as a plain list of entries would
(`entries_editAll`): an entry comes to the end when its name is allowed and no
entry has it, and those that are kept stay in their order. The index is not
needed to say so, and it never differs from the entries: each name is indexed at
the position of the one entry that has it, and nothing else is (`Indexed`).
Making a table of a list stops at the first entry that is refused behind the
ones before it (`ofList_eq_error_iff`).
-/

namespace StepGraph

namespace NameTable

variable {α : Type} [Named α] {table : NameTable α} {entry : α} {entries : List α}
variable {e : NamingError}

/-! ## Edits -/

/-- An edit of a table. -/
inductive Edit (α : Type) where
  /-- Puts an entry in. -/
  | insert (entry : α)
  /-- Keeps only the entries that a predicate accepts. -/
  | filter (keep : α → Bool)

/-- The table after an edit; an entry that is refused leaves it as it is. -/
def edit (table : NameTable α) : Edit α → NameTable α
  | .insert entry =>
    match table.insert entry with
    | .ok result => result
    | .error _ => table
  | .filter keep => table.filter keep

/-- **The table that edits in a row make** of the empty one. -/
def editAll (edits : List (Edit α)) : NameTable α :=
  edits.foldl edit empty

namespace Edit

/-- What an edit does to a plain list of entries. -/
def onList (entries : List α) : Edit α → List α
  | insert entry =>
    if (Named.check entry).isOk ∧ Named.name entry ∉ entries.map Named.name
    then entries ++ [entry] else entries
  | filter keep => entries.filter keep

/-- The entry that an edit wants to put in. -/
def entry? : Edit α → Option α
  | insert entry => some entry
  | filter _ => none

end Edit

/-! ## Refused entries -/

/-- **Why an entry is refused** behind others: its own name is not allowed, or
it is the name of one of them. -/
inductive Refused (entries : List α) (entry : α) : NamingError → Prop where
  | malformed {e : NamingError} (h : Named.check entry = .error e) : Refused entries entry e
  | repeated (hallowed : Named.check entry = .ok ())
      (h : Named.name entry ∈ entries.map Named.name) :
      Refused entries entry (Named.taken α (Named.name entry))

/-- Some entry of a list is refused behind the ones before it. -/
def HasRefused (entries : List α) : Prop :=
  ∃ before entry behind e, entries = before ++ entry :: behind ∧ Refused before entry e

/-- Insertion refuses what is refused behind the entries. -/
theorem WellFormed.insert_eq_error_iff (h : table.WellFormed) :
    table.insert entry = .error e ↔ Refused table.entries entry e := by
  cases hcheck : Named.check entry with
  | error problem =>
    have hinsert : table.insert entry = .error problem := by rw [NameTable.insert, hcheck]
    rw [hinsert]
    constructor
    · rintro ⟨⟩
      exact .malformed hcheck
    · rintro (hmalformed | ⟨hallowed, -⟩)
      · exact congrArg Except.error (Except.error.inj (hcheck.symm.trans hmalformed))
      · cases hcheck.symm.trans hallowed
  | ok =>
    have hinsert : table.insert entry = if table.contains (Named.name entry) then
        .error (Named.taken α (Named.name entry)) else .ok (table.appended entry) := by
      rw [NameTable.insert, hcheck]
      rfl
    rw [hinsert]
    constructor
    · split
      · rename_i hcontains
        rintro ⟨⟩
        exact .repeated hcheck (h.contains_iff.mp hcontains)
      · rintro ⟨⟩
    · rintro (hmalformed | ⟨-, hmem⟩)
      · cases hcheck.symm.trans hmalformed
      · exact if_pos (h.contains_iff.mpr hmem)

/-! ## Edited tables -/

/-- Edits keep a table well formed. -/
theorem WellFormed.edit (h : table.WellFormed) (change : Edit α) :
    (table.edit change).WellFormed := by
  cases change with
  | insert entry =>
    rw [NameTable.edit]
    split
    · rename_i result hinsert
      exact h.insert hinsert
    · exact h
  | filter keep => exact h.filter keep

theorem wellFormed_editAll (edits : List (Edit α)) : (editAll edits).WellFormed := by
  have hfold (table : NameTable α) (h : table.WellFormed) :
      (edits.foldl NameTable.edit table).WellFormed := by
    induction edits generalizing table with
    | nil => exact h
    | cons change rest ih => exact ih _ (h.edit change)
  exact hfold _ wellFormed_empty

/-- **An edit does to the entries what it does to a plain list.** -/
theorem WellFormed.entries_edit (h : table.WellFormed) (change : Edit α) :
    (table.edit change).entries = change.onList table.entries := by
  cases change with
  | insert entry =>
    rw [NameTable.edit, Edit.onList]
    split
    · rename_i result hinsert
      obtain ⟨hcheck, hfree, rfl⟩ := insert_eq_ok_iff.mp hinsert
      rw [← Bool.not_eq_true, h.contains_iff] at hfree
      rw [if_pos ⟨by rw [hcheck]; rfl, hfree⟩]
      rfl
    · rename_i problem hinsert
      rw [if_neg]
      rintro ⟨hallowed, hfree⟩
      cases h.insert_eq_error_iff.mp hinsert with
      | malformed hmalformed =>
        rw [hmalformed] at hallowed
        cases hallowed
      | repeated _ hmem => exact hfree hmem
  | filter keep => rfl

/-- **An edited table holds what a plain list would** after the same edits. -/
theorem entries_editAll (edits : List (Edit α)) :
    (editAll edits).entries = edits.foldl Edit.onList [] := by
  have hfold (table : NameTable α) (h : table.WellFormed) :
      (edits.foldl NameTable.edit table).entries = edits.foldl Edit.onList table.entries := by
    induction edits generalizing table with
    | nil => rfl
    | cons change rest ih =>
      rw [List.foldl_cons, List.foldl_cons, ih _ (h.edit change), h.entries_edit]
  exact hfold _ wellFormed_empty

/-- **Entries stand in the order in which they were put in**, and none is there
that was not. -/
theorem sublist_entry? (edits : List (Edit α)) :
    (edits.foldl Edit.onList []).Sublist (edits.filterMap Edit.entry?) := by
  have hfold (entries : List α) :
      (edits.foldl Edit.onList entries).Sublist (entries ++ edits.filterMap Edit.entry?) := by
    induction edits generalizing entries with
    | nil => exact List.sublist_append_left entries _
    | cons change rest ih =>
      refine (ih _).trans ?_
      cases change with
      | insert entry =>
        have hentry : (Edit.insert entry :: rest).filterMap Edit.entry? =
            entry :: rest.filterMap Edit.entry? := rfl
        rw [Edit.onList, hentry]
        split
        · rw [List.append_assoc, List.singleton_append]
        · exact (List.Sublist.refl entries).append (List.sublist_cons_self entry _)
      | filter keep => exact List.filter_sublist.append (.refl _)
  exact hfold []

/-- **A table whose index agrees with its entries.** -/
structure Indexed (table : NameTable α) : Prop where
  /-- No two entries have one name. -/
  distinct : (table.entries.map Named.name).Nodup
  /-- A name is indexed at the position of an entry that has it, and nowhere
  else. -/
  index_iff : ∀ name position, table.index.lookup name = some position ↔
    ∃ entry, table.entries[position]? = some entry ∧ Named.name entry = name
  /-- What is found under a name is the entry that has it. -/
  lookup_iff : ∀ name entry, table.lookup name = some entry ↔
    entry ∈ table.entries ∧ Named.name entry = name
  /-- A name is found exactly if an entry has it. -/
  contains_iff : ∀ name, table.contains name = true ↔
    ∃ entry ∈ table.entries, Named.name entry = name

theorem WellFormed.indexed (h : table.WellFormed) : table.Indexed where
  distinct := h.distinct
  index_iff name position := by
    refine ⟨h.getElem?_of_index, ?_⟩
    rintro ⟨entry, hentry, rfl⟩
    have hcontains : table.contains (Named.name entry) = true :=
      h.contains_iff.mpr (List.mem_map_of_mem (List.mem_of_getElem? hentry))
    obtain ⟨place, hindex⟩ := Option.isSome_iff_exists.mp hcontains
    obtain ⟨other, hother, hname⟩ := h.getElem?_of_index hindex
    -- the entry at the indexed place has the same name, and only one entry has it
    have hplace : place = position := by
      have hlt : place < (table.entries.map Named.name).length := by
        rw [List.length_map]
        exact (List.getElem?_eq_some_iff.mp hother).1
      refine (List.getElem?_inj hlt h.distinct).mp ?_
      rw [List.getElem?_map, List.getElem?_map, hother, hentry, Option.map_some, Option.map_some,
        hname]
    rw [hindex, hplace]
  lookup_iff _ _ := h.lookup_eq_some_iff
  contains_iff name := by rw [h.contains_iff, List.mem_map]

example : (editAll [.insert (⟨"a", "", "n"⟩ : Variable), .insert ⟨"b", "", "m"⟩,
    .filter (·.producer == "m"), .insert ⟨"a", "", "m"⟩]).index = [("b", 0), ("a", 1)] := by decide

/-! ## Tables of lists -/

/-- In the list of a table no entry is refused behind the ones before it. -/
theorem not_hasRefused_of_ofList (h : ofList entries = .ok table) : ¬ HasRefused entries := by
  rintro ⟨before, entry, behind, e, rfl, hrefused⟩
  obtain ⟨hdistinct, hallowed, -⟩ := ofList_eq_ok_iff.mp h
  cases hrefused with
  | malformed hmalformed =>
    cases (hallowed entry (List.mem_append_right _ List.mem_cons_self)).symm.trans hmalformed
  | repeated _ hmem =>
    rw [List.map_append, List.map_cons, List.nodup_append] at hdistinct
    exact hdistinct.2.2 _ hmem _ List.mem_cons_self rfl

/-- **The first refusal stands**: making a table of a list fails with the error
of the first entry that is refused behind the ones before it. -/
theorem ofList_eq_error_iff :
    ofList entries = .error e ↔
      ∃ before entry behind, entries = before ++ entry :: behind ∧ Refused before entry e ∧
        ¬ HasRefused before := by
  have hforward {entries : List α} {e : NamingError} (h : ofList entries = .error e) :
      ∃ before entry behind, entries = before ++ entry :: behind ∧ Refused before entry e ∧
        ¬ HasRefused before := by
    obtain ⟨before, entry, behind, table, rfl, hbefore, hinsert⟩ :=
      Checks.foldlM_eq_error_iff.mp h
    obtain ⟨hwf, hentries⟩ := foldlM_insert_wellFormed wellFormed_empty hbefore
    obtain rfl : table.entries = before := hentries
    exact ⟨_, entry, behind, rfl, hwf.insert_eq_error_iff.mp hinsert,
      not_hasRefused_of_ofList hbefore⟩
  refine ⟨hforward, ?_⟩
  rintro ⟨before, entry, behind, rfl, hrefused, hbefore⟩
  -- nothing before the entry is refused, so a table is made of it
  cases hmade : ofList before with
  | error problem =>
    obtain ⟨front, other, back, rfl, hother, -⟩ := hforward hmade
    exact absurd ⟨front, other, back, problem, rfl, hother⟩ hbefore
  | ok table =>
    obtain ⟨hwf, hentries⟩ := foldlM_insert_wellFormed wellFormed_empty hmade
    obtain rfl : table.entries = before := hentries
    exact Checks.foldlM_eq_error_iff.mpr
      ⟨_, entry, behind, table, rfl, hmade, hwf.insert_eq_error_iff.mpr hrefused⟩

/-- So it fails exactly if there is such an entry. -/
theorem exists_ofList_eq_error_iff : (∃ e, ofList entries = .error e) ↔ HasRefused entries := by
  cases hmade : ofList entries with
  | ok table => simp [not_hasRefused_of_ofList hmade]
  | error e =>
    obtain ⟨before, entry, behind, heq, hrefused, -⟩ := ofList_eq_error_iff.mp hmade
    exact ⟨fun _ => ⟨before, entry, behind, e, heq, hrefused⟩, fun _ => ⟨e, rfl⟩⟩

/-- **Index and entries agree** in every table that edits in a row make. -/
theorem index_agrees (edits : List (Edit α)) (entries : List α) :
    (editAll edits).Indexed ∧
      (editAll edits).entries = edits.foldl Edit.onList [] ∧
      (editAll edits).entries.Sublist (edits.filterMap Edit.entry?) ∧
      ((∃ e, ofList entries = .error e) ↔ HasRefused entries) ∧
      ∀ e, ofList entries = .error e ↔
        ∃ before entry behind, entries = before ++ entry :: behind ∧ Refused before entry e ∧
          ¬ HasRefused before :=
  ⟨(wellFormed_editAll edits).indexed, entries_editAll edits,
    (entries_editAll edits).symm ▸ sublist_entry? edits, exists_ofList_eq_error_iff,
    fun _ => ofList_eq_error_iff⟩

end NameTable

end StepGraph
