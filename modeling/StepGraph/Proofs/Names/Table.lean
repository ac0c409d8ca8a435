import StepGraph.Names.Assistant
import StepGraph.Names.Variable
import StepGraph.Proofs.Checks
import Mathlib.Data.List.Nodup
import Mathlib.Data.List.TakeWhile

/-!
# What name tables keep

In a table that is made by insertion and filtering every name is allowed,
no two entries have one name, and the index holds the position of each
entry and nothing else (`WellFormed`). So a name is found when an entry has
it, and the entry is found under it (`contains_iff`, `lookup_eq_some_iff`),
and a list of entries makes a table when its names are
allowed and different (`ofList_eq_ok_iff`).
-/

namespace StepGraph

namespace NameTable

variable {α : Type} [Named α] {table : NameTable α} {entry : α} {entries : List α}

/-- What a table keeps: allowed names, none twice, and the index of its
entries. -/
structure WellFormed (table : NameTable α) : Prop where
  distinct : (table.entries.map Named.name).Nodup
  allowed : ∀ entry ∈ table.entries, Named.check entry = .ok ()
  index_eq : table.index = positions table.entries

theorem wellFormed_empty : (empty : NameTable α).WellFormed :=
  ⟨List.nodup_nil, fun _ h => (by cases h), rfl⟩

/-- The names in the index are the names of the entries. -/
theorem map_fst_positions (entries : List α) :
    (positions entries).map Prod.fst = entries.map Named.name := by
  calc (positions entries).map Prod.fst
      = (entries.zipIdx.map Prod.fst).map Named.name := by
        rw [positions, List.map_map, List.map_map]
        rfl
    _ = entries.map Named.name := by rw [List.zipIdx_map_fst]

/-- One more entry adds its position behind the others. -/
theorem positions_append (entries : List α) (entry : α) :
    positions (entries ++ [entry]) = positions entries ++ [(Named.name entry, entries.length)] := by
  simp [positions, List.zipIdx_append]

/-- **A name is found when an entry has it.** -/
theorem WellFormed.contains_iff (h : table.WellFormed) {name : String} :
    table.contains name = true ↔ name ∈ table.entries.map Named.name := by
  rw [contains, h.index_eq, ← map_fst_positions, List.lookup_isSome_iff, List.mem_map]
  constructor
  · rintro ⟨p, hp, heq⟩
    exact ⟨p, hp, (eq_of_beq heq).symm⟩
  · rintro ⟨p, hp, rfl⟩
    exact ⟨p, hp, beq_self_eq_true _⟩

/-- The position of a name is that of an entry that has it. -/
theorem WellFormed.getElem?_of_index (h : table.WellFormed) {name : String} {position : Nat}
    (hindex : table.index.lookup name = some position) :
    ∃ entry, table.entries[position]? = some entry ∧ Named.name entry = name := by
  rw [h.index_eq, List.lookup_eq_some_iff] at hindex
  obtain ⟨before, behind, hpositions, -⟩ := hindex
  have hmem : (name, position) ∈ positions table.entries := by rw [hpositions]; simp
  obtain ⟨⟨entry, place⟩, hentry, heq⟩ := List.mem_map.mp hmem
  cases heq
  exact ⟨entry, List.mk_mem_zipIdx_iff_getElem?.mp hentry, rfl⟩

/-- **A lookup gives the entry that has the name.** -/
theorem WellFormed.lookup_eq_some_iff (h : table.WellFormed) {name : String} :
    table.lookup name = some entry ↔ entry ∈ table.entries ∧ Named.name entry = name := by
  rw [lookup, Option.bind_eq_some_iff]
  constructor
  · rintro ⟨position, hindex, hentry⟩
    obtain ⟨found, hfound, hname⟩ := h.getElem?_of_index hindex
    obtain rfl : found = entry := Option.some.inj (hfound.symm.trans hentry)
    exact ⟨List.mem_of_getElem? hentry, hname⟩
  · rintro ⟨hmem, rfl⟩
    have hcontains : table.contains (Named.name entry) = true :=
      h.contains_iff.mpr (List.mem_map_of_mem hmem)
    obtain ⟨position, hindex⟩ := Option.isSome_iff_exists.mp hcontains
    obtain ⟨found, hfound, hname⟩ := h.getElem?_of_index hindex
    -- no other entry has the name
    obtain rfl : found = entry :=
      List.inj_on_of_nodup_map h.distinct (List.mem_of_getElem? hfound) hmem hname
    exact ⟨position, hindex, hfound⟩

/-! ## Insertion -/

/-- The table with an entry behind the others, whatever its name. -/
def appended (table : NameTable α) (entry : α) : NameTable α where
  entries := table.entries ++ [entry]
  index := table.index ++ [(Named.name entry, table.entries.length)]

/-- **Insertion** succeeds when the name is allowed and free, and puts the
entry behind the others. -/
theorem insert_eq_ok_iff {result : NameTable α} :
    table.insert entry = .ok result ↔
      Named.check entry = .ok () ∧ table.contains (Named.name entry) = false ∧
        result = table.appended entry := by
  rw [insert]
  cases Named.check entry with
  | error e => simp
  | ok u =>
    cases table.contains (Named.name entry) <;> simp [appended, eq_comm]

/-- Insertion keeps a table well formed. -/
theorem WellFormed.insert (h : table.WellFormed) {result : NameTable α}
    (hinsert : table.insert entry = .ok result) : result.WellFormed := by
  obtain ⟨hcheck, hfree, rfl⟩ := insert_eq_ok_iff.mp hinsert
  have hnew : Named.name entry ∉ table.entries.map Named.name := by
    rw [← h.contains_iff, hfree]
    exact Bool.false_ne_true
  refine ⟨?_, ?_, ?_⟩
  · rw [appended, List.map_append, List.nodup_append]
    refine ⟨h.distinct, List.nodup_singleton _, fun a ha b hb hab => hnew ?_⟩
    rw [List.map_singleton, List.mem_singleton] at hb
    exact hb ▸ hab ▸ ha
  · intro other hother
    rcases List.mem_append.mp hother with hother | hother
    · exact h.allowed other hother
    · rw [List.mem_singleton.mp hother]
      exact hcheck
  · rw [appended, positions_append, h.index_eq]

/-- An entry that can be inserted once can be inserted under the same name
with anything else that is checked alike. -/
theorem insert_isOk_congr {e other : α} (hname : Named.name other = Named.name e)
    (hcheck : Named.check other = Named.check e) {result : NameTable α}
    (h : table.insert e = .ok result) : table.insert other = .ok (table.appended other) := by
  obtain ⟨hallowed, hfree, -⟩ := insert_eq_ok_iff.mp h
  exact insert_eq_ok_iff.mpr ⟨hcheck.trans hallowed, hname ▸ hfree, rfl⟩

/-! ## Filtering -/

/-- Filtering keeps a table well formed. -/
theorem WellFormed.filter (h : table.WellFormed) (keep : α → Bool) :
    (table.filter keep).WellFormed where
  distinct := List.Nodup.sublist (List.filter_sublist.map Named.name) h.distinct
  allowed entry hentry := h.allowed entry (List.mem_of_mem_filter hentry)
  index_eq := rfl

/-- **A table that is made** from the empty one by insertion and filtering. -/
inductive Built : NameTable α → Prop where
  | empty : Built empty
  | insert {table result : NameTable α} {entry : α} (h : Built table)
      (hinsert : table.insert entry = .ok result) : Built result
  | filter {table : NameTable α} (h : Built table) (keep : α → Bool) : Built (table.filter keep)

/-- Such a table is well formed. -/
theorem Built.wellFormed (h : table.Built) : table.WellFormed := by
  induction h with
  | empty => exact wellFormed_empty
  | insert _ hinsert ih => exact ih.insert hinsert
  | filter _ keep ih => exact ih.filter keep

/-! ## Tables of lists -/

/-- Entries with allowed and different names can be inserted one after the
other. -/
theorem foldlM_insert_eq_ok (h : table.WellFormed)
    (hdistinct : ((table.entries ++ entries).map Named.name).Nodup)
    (hallowed : ∀ entry ∈ entries, Named.check entry = .ok ()) :
    entries.foldlM NameTable.insert table =
      .ok ⟨table.entries ++ entries, positions (table.entries ++ entries)⟩ := by
  induction entries generalizing table with
  | nil =>
    rw [List.append_nil, ← h.index_eq]
    rfl
  | cons entry rest ih =>
    obtain ⟨hentry, hrest⟩ := List.forall_mem_cons.mp hallowed
    -- the name is that of no entry before, so the index has not got it
    have hfree : table.contains (Named.name entry) = false := by
      rw [Bool.eq_false_iff, Ne, h.contains_iff]
      rw [List.map_append, List.map_cons, List.nodup_append] at hdistinct
      exact fun hmem => hdistinct.2.2 _ hmem _ List.mem_cons_self rfl
    have hinsert : table.insert entry = .ok (table.appended entry) :=
      insert_eq_ok_iff.mpr ⟨hentry, hfree, rfl⟩
    have happend : (table.appended entry).entries ++ rest = table.entries ++ entry :: rest := by
      rw [appended, List.append_assoc, List.singleton_append]
    have htail := ih (h.insert hinsert) (by rw [happend]; exact hdistinct) hrest
    rw [List.foldlM_cons, hinsert, ← happend]
    exact htail

/-- What insertions one after the other have put in is allowed, and the
table is well formed. -/
theorem foldlM_insert_wellFormed (h : table.WellFormed) {result : NameTable α}
    (hfold : entries.foldlM NameTable.insert table = .ok result) :
    result.WellFormed ∧ result.entries = table.entries ++ entries := by
  induction entries generalizing table with
  | nil =>
    obtain rfl : table = result := Except.ok.inj hfold
    exact ⟨h, (List.append_nil _).symm⟩
  | cons entry rest ih =>
    rw [List.foldlM_cons, Checks.bind_eq_ok_iff] at hfold
    obtain ⟨next, hinsert, hrest⟩ := hfold
    obtain ⟨hresult, hentries⟩ := ih (h.insert hinsert) hrest
    obtain ⟨-, -, rfl⟩ := insert_eq_ok_iff.mp hinsert
    refine ⟨hresult, hentries.trans ?_⟩
    rw [appended, List.append_assoc, List.singleton_append]

/-- **The table of a list** is there when the names of the list are allowed
and different; it holds the list as it is. -/
theorem ofList_eq_ok_iff {result : NameTable α} :
    ofList entries = .ok result ↔
      (entries.map Named.name).Nodup ∧ (∀ entry ∈ entries, Named.check entry = .ok ()) ∧
        result = ⟨entries, positions entries⟩ := by
  constructor
  · intro h
    obtain ⟨hwf, hentries⟩ := foldlM_insert_wellFormed wellFormed_empty h
    obtain rfl : result.entries = entries := hentries
    refine ⟨hwf.distinct, hwf.allowed, ?_⟩
    rw [← hwf.index_eq]
  · rintro ⟨hdistinct, hallowed, rfl⟩
    exact foldlM_insert_eq_ok wellFormed_empty hdistinct hallowed

end NameTable

/-! ## Allowed names -/

/-- **A variable's name is allowed** when it is an identifier and not
reserved. -/
theorem Variable.check_eq_ok_iff {v : Variable} :
    Named.check v = .ok () ↔
      Script.isIdentifier v.name = true ∧ Script.isReserved v.name = false := by
  simp only [Named.check, Checks.ite_error_eq_ok_iff]
  simp

/-- Trimming leaves nothing of a text that is blank throughout, and
something of every other. -/
theorem Text.trim_eq_nil_iff {cs : List Char} :
    Text.trim cs = [] ↔ ∀ c ∈ cs, Text.isBlank c = true := by
  rw [Text.trim, List.reverse_eq_nil_iff, List.dropWhile_eq_nil_iff]
  simp only [List.mem_reverse]
  constructor
  · intro h
    cases hrest : cs.dropWhile Text.isBlank with
    | nil => exact List.dropWhile_eq_nil_iff.mp hrest
    | cons c rest =>
      have hhead := List.head?_dropWhile_not Text.isBlank cs
      have hblank : Text.isBlank c = true := h c (by rw [hrest]; exact List.mem_cons_self)
      simp [hrest, hblank] at hhead
  · intro h c hc
    exact h c (List.dropWhile_sublist _ |>.subset hc)

/-- **An assistant's name is allowed** when some character of it is not
blank. -/
theorem Assistant.check_eq_ok_iff {a : Assistant} :
    Named.check a = .ok () ↔ ∃ c ∈ a.name.toList, Text.isBlank c = false := by
  simp only [Named.check, Checks.ite_error_eq_ok_iff, List.isEmpty_iff, Text.trim_eq_nil_iff]
  simp

end StepGraph
