import StepGraph.Graph.Scope
import Mathlib.Data.List.Infix
import Mathlib.Data.List.TakeWhile

/-!
# Parent texts

A scope reads a text when its owner is known and the text is its own
(`Scope.Reads`). Owners may hold hyphens, so several scopes may read one
text. Each of them has its owner at the beginning of the text, so the
lengths of the owners tell them apart (`Reads.eq_of_length_eq`), and parsing
gives the one with the longest owner (`parse?_eq_some_iff`), or nothing where
there is none (`parse?_eq_none_iff`). A scope is thus given back by its own
text where no longer owner reads it (`parse?_parentId_iff`), and this is so
for every scope when no known id has a hyphen (`parse?_parentId_of_plain`).
-/

namespace StepGraph

namespace Slot

/-- **A suffix names the slot that it belongs to.** -/
theorem ofSuffix?_eq_some_iff {suffix : List Char} {slot : Slot} :
    ofSuffix? suffix = some slot ↔ slot.suffix? = some (String.ofList suffix) := by
  constructor
  · intro h
    rw [ofSuffix?.eq_def] at h
    split at h
    · cases h
      rw [‹suffix = _›, String.ofList_toList]
      rfl
    · split at h
      · cases h
        rw [‹suffix = _›, String.ofList_toList]
        rfl
      · split at h
        · cases h
          rw [‹suffix = _›, String.ofList_toList]
          rfl
        · split at h
          · rename_i value _ _ _
            cases h
            have htext : String.ofList (['c', 'a', 's', 'e', '-'] ++ value) =
                "case-" ++ String.ofList value := String.ofList_append
            exact congrArg some htext.symm
          · cases h
  · intro h
    -- each slot has one suffix, which is read back
    have hchars : ∀ text, slot.suffix? = some text → suffix = text.toList := fun text htext => by
      rw [← Option.some.inj (h.symm.trans htext), String.toList_ofList]
    cases slot with
    | body => cases h
    | ifBranch => rw [hchars _ rfl]; rfl
    | elseBranch => rw [hchars _ rfl]; rfl
    | defaultBranch => rw [hchars _ rfl]; rfl
    | caseBranch value =>
      rw [hchars _ rfl, String.toList_append]
      exact congrArg (fun value => some (caseBranch value)) String.ofList_toList

end Slot

namespace Scope

variable {isKnown : String → Bool} {text : String} {scope other : Scope}

/-! ## Splits -/

/-- **A text splits at its hyphens.** -/
theorem mem_splits_iff {cs owner suffix : List Char} :
    (owner, suffix) ∈ splits cs ↔ cs = owner ++ '-' :: suffix := by
  induction cs generalizing owner with
  | nil => simp [splits]
  | cons c rest ih =>
    rw [splits]
    cases owner with
    | nil => split <;> simp_all [eq_comm]
    | cons d owner => split <;> simp_all [and_comm, eq_comm]

/-- The longest first part comes first. -/
theorem splits_pairwise (cs : List Char) :
    (splits cs).Pairwise fun longer shorter => shorter.1.length < longer.1.length := by
  induction cs with
  | nil => exact .nil
  | cons c rest ih =>
    have hlonger : ((splits rest).map fun split => (c :: split.1, split.2)).Pairwise
        fun longer shorter => shorter.1.length < longer.1.length :=
      ih.map _ fun _ _ hlt => Nat.succ_lt_succ hlt
    simp only [splits]
    split
    · refine List.pairwise_append.mpr ⟨hlonger, List.pairwise_singleton _ _, fun longer hmem => ?_⟩
      obtain ⟨split, -, rfl⟩ := List.mem_map.mp hmem
      simp
    · exact hlonger

/-! ## Readings -/

/-- **A scope that a text may stand for**: its owner is known, and the text
is its own. -/
def Reads (isKnown : String → Bool) (text : String) (scope : Scope) : Prop :=
  isKnown scope.owner = true ∧ scope.parentId = text

/-- The text of a scope is the owner alone or is split behind it. -/
theorem toList_parentId (scope : Scope) :
    scope.slot = .body ∧ scope.parentId.toList = scope.owner.toList ∨
      ∃ suffix, scope.slot.suffix? = some (String.ofList suffix) ∧
        scope.parentId.toList = scope.owner.toList ++ '-' :: suffix := by
  obtain ⟨owner, slot⟩ := scope
  cases slot with
  | body => exact .inl ⟨rfl, rfl⟩
  | _ =>
    exact .inr ⟨_, (congrArg some String.ofList_toList).symm, by simp [parentId, Slot.suffix?]⟩

/-- An owner begins the text. -/
theorem owner_prefix_parentId (scope : Scope) :
    scope.owner.toList <+: scope.parentId.toList := by
  rcases scope.toList_parentId with ⟨-, h⟩ | ⟨suffix, -, h⟩
  · rw [h]
  · exact ⟨'-' :: suffix, h.symm⟩

/-- Scopes with one owner have different texts. -/
theorem eq_of_parentId_eq (howner : scope.owner = other.owner)
    (h : scope.parentId = other.parentId) : scope = other := by
  obtain ⟨owner, slot⟩ := scope
  obtain ⟨owner', slot'⟩ := other
  obtain rfl : owner = owner' := howner
  have hchars : (parentId ⟨owner, slot⟩).toList = (parentId ⟨owner, slot'⟩).toList :=
    congrArg String.toList h
  rcases toList_parentId ⟨owner, slot⟩ with ⟨hslot, htext⟩ | ⟨suffix, hslot, htext⟩ <;>
    rcases toList_parentId ⟨owner, slot'⟩ with ⟨hslot', htext'⟩ | ⟨suffix', hslot', htext'⟩ <;>
    rw [htext, htext'] at hchars
  · obtain rfl : slot = .body := hslot
    obtain rfl : slot' = .body := hslot'
    rfl
  · simp at hchars
  · simp at hchars
  · obtain rfl : suffix = suffix' := by simpa using hchars
    have hsame := (Slot.ofSuffix?_eq_some_iff.mpr hslot).symm.trans
      (Slot.ofSuffix?_eq_some_iff.mpr hslot')
    exact congrArg (mk owner) (Option.some.inj hsame)

namespace Reads

/-- **Readings with owners of one length are the same.** -/
theorem eq_of_length_eq (h : Reads isKnown text scope) (h' : Reads isKnown text other)
    (hlen : scope.owner.length = other.owner.length) : scope = other := by
  refine eq_of_parentId_eq ?_ (h.2.trans h'.2.symm)
  have hprefix := scope.owner_prefix_parentId
  have hprefix' := other.owner_prefix_parentId
  rw [h.2] at hprefix
  rw [h'.2] at hprefix'
  rw [← String.length_toList, ← String.length_toList] at hlen
  have hsub := List.prefix_of_prefix_length_le hprefix hprefix' hlen.le
  exact String.toList_inj.mp (hsub.eq_of_length hlen)

/-- A text that is no id is split by its readings. -/
theorem mem_splits (h : Reads isKnown text scope) (htext : isKnown text = false) :
    ∃ suffix, (scope.owner.toList, suffix) ∈ splits text.toList ∧
      Slot.ofSuffix? suffix = some scope.slot := by
  rcases scope.toList_parentId with ⟨-, hchars⟩ | ⟨suffix, hslot, hchars⟩
  · -- the text would be the owner, which is an id
    have hid : scope.owner = text := String.toList_inj.mp (hchars.symm.trans (by rw [h.2]))
    rw [← hid, h.1] at htext
    cases htext
  · rw [h.2] at hchars
    exact ⟨suffix, mem_splits_iff.mpr hchars, Slot.ofSuffix?_eq_some_iff.mpr hslot⟩

/-- A split with a known owner and the suffix of a slot is a reading. -/
theorem of_mem_splits {owner suffix : List Char} {slot : Slot}
    (hknown : isKnown (String.ofList owner) = true)
    (hsplit : (owner, suffix) ∈ splits text.toList) (hslot : Slot.ofSuffix? suffix = some slot) :
    Reads isKnown text ⟨String.ofList owner, slot⟩ := by
  refine ⟨hknown, String.toList_inj.mp ?_⟩
  rw [mem_splits_iff.mp hsplit]
  simp [parentId, Slot.ofSuffix?_eq_some_iff.mp hslot]

end Reads

/-! ## Parsing -/

/-- What parsing gives is a reading with the longest owner. -/
theorem reads_of_parse? (h : parse? isKnown text = some scope) :
    Reads isKnown text scope ∧
      ∀ other, Reads isKnown text other → other.owner.length ≤ scope.owner.length := by
  rw [parse?] at h
  split at h
  · rename_i hknown
    cases h
    refine ⟨⟨hknown, rfl⟩, fun other hother => ?_⟩
    have hle := other.owner_prefix_parentId.length_le
    rwa [hother.2, String.length_toList, String.length_toList] at hle
  · rename_i hunknown
    obtain ⟨before, ⟨owner, suffix⟩, after, hsplits, hfound, hnone⟩ :=
      List.findSome?_eq_some_iff.mp h
    dsimp only at hfound
    split at hfound
    · rename_i hknown
      obtain ⟨slot, hslot, rfl⟩ := Option.map_eq_some_iff.mp hfound
      have hmem : (owner, suffix) ∈ splits text.toList := by simp [hsplits]
      refine ⟨.of_mem_splits hknown hmem hslot, fun other hother => ?_⟩
      -- a reading that came before would have been found
      obtain ⟨suffix', hmem', hslot'⟩ := hother.mem_splits (Bool.eq_false_iff.mpr hunknown)
      have hreads : isKnown (String.ofList other.owner.toList) = true := by
        rw [String.ofList_toList]
        exact hother.1
      have hpairwise := splits_pairwise text.toList
      rw [hsplits] at hmem' hpairwise
      rcases List.mem_append.mp hmem' with hmem' | hmem'
      · have hnot := hnone _ hmem'
        dsimp only at hnot
        rw [if_pos hreads, hslot'] at hnot
        cases hnot
      · rcases List.mem_cons.mp hmem' with heq | hmem'
        · rw [← (Prod.mk.inj heq).1, String.ofList_toList]
        · have hlt := List.rel_of_pairwise_cons (List.pairwise_append.mp hpairwise).2.1 hmem'
          rw [String.length_toList] at hlt
          simpa using Nat.le_of_lt hlt
    · cases hfound

/-- Parsing finds a reading where there is one. -/
theorem exists_parse?_of_reads (h : Reads isKnown text scope) :
    ∃ found, parse? isKnown text = some found := by
  by_cases hknown : isKnown text = true
  · exact ⟨⟨text, .body⟩, by rw [parse?, if_pos hknown]⟩
  · obtain ⟨suffix, hmem, hslot⟩ := h.mem_splits (Bool.eq_false_iff.mpr hknown)
    rw [← Option.isSome_iff_exists, parse?, if_neg hknown, List.findSome?_isSome_iff]
    refine ⟨_, hmem, ?_⟩
    dsimp only
    rw [String.ofList_toList, if_pos h.1, hslot]
    rfl

/-- **Parsing gives the reading with the longest owner.** -/
theorem parse?_eq_some_iff :
    parse? isKnown text = some scope ↔
      Reads isKnown text scope ∧
        ∀ other, Reads isKnown text other → other.owner.length ≤ scope.owner.length := by
  refine ⟨reads_of_parse?, fun ⟨hreads, hlongest⟩ => ?_⟩
  obtain ⟨found, hfound⟩ := exists_parse?_of_reads hreads
  obtain ⟨hreads', hlongest'⟩ := reads_of_parse? hfound
  have hlen : found.owner.length = scope.owner.length :=
    Nat.le_antisymm (hlongest found hreads') (hlongest' scope hreads)
  rw [hfound, hreads'.eq_of_length_eq hreads hlen]

/-- **A scope is given back by its text** when no longer owner reads it. -/
theorem parse?_parentId_iff (hknown : isKnown scope.owner = true) :
    parse? isKnown scope.parentId = some scope ↔
      ∀ other : Scope, isKnown other.owner = true → other.parentId = scope.parentId →
        other.owner.length ≤ scope.owner.length := by
  rw [parse?_eq_some_iff]
  exact ⟨fun h other hother htext => h.2 other ⟨hother, htext⟩,
    fun h => ⟨⟨hknown, rfl⟩, fun other hother => h other hother.1 hother.2⟩⟩

/-- Parsing gives nothing where there is no reading. -/
theorem parse?_eq_none_iff : parse? isKnown text = none ↔ ∀ scope, ¬ Reads isKnown text scope := by
  constructor
  · intro hnone scope hreads
    obtain ⟨found, hfound⟩ := exists_parse?_of_reads hreads
    rw [hnone] at hfound
    cases hfound
  · intro h
    rw [Option.eq_none_iff_forall_ne_some]
    exact fun scope hparse => h scope (reads_of_parse? hparse).1

/-- **A text is read with the longest known owner.** It names no scope when no
scope reads it. Otherwise it names the reading whose owner is longer than that
of every other, and the text of this scope is the one that was read. -/
theorem parse?_longest_owner (isKnown : String → Bool) (text : String) :
    (parse? isKnown text = none ↔ ∀ scope, ¬ Reads isKnown text scope) ∧
      (∀ scope, parse? isKnown text = some scope ↔
        Reads isKnown text scope ∧ ∀ other, Reads isKnown text other → other ≠ scope →
          other.owner.length < scope.owner.length) ∧
      ∀ scope, parse? isKnown text = some scope → scope.parentId = text := by
  refine ⟨parse?_eq_none_iff, fun scope => ?_, fun scope h => (reads_of_parse? h).1.2⟩
  rw [parse?_eq_some_iff]
  refine and_congr_right fun hreads => ⟨fun hlongest other hother hne => ?_,
    fun hlongest other hother => ?_⟩
  · -- two readings with owners of one length would be one reading
    have hlen : other.owner.length ≠ scope.owner.length := fun hlen =>
      hne (hother.eq_of_length_eq hreads hlen)
    exact Nat.lt_of_le_of_ne (hlongest other hother) hlen
  · by_cases heq : other = scope
    · rw [heq]
    · exact Nat.le_of_lt (hlongest other hother heq)

/-- A known owner that leaves no slot is passed over for a shorter one. -/
example : parse? (["sw", "sw-case-x"].contains ·) "sw-case-x-y" = some ⟨"sw", .caseBranch "x-y"⟩ ∧
    parse? (["sw", "sw-case-x"].contains ·) "sw-sideways" = none := by decide

/-- An owner without a hyphen is what stands in front of the first hyphen of
the text. -/
theorem takeWhile_parentId (h : '-' ∉ scope.owner.toList) :
    scope.parentId.toList.takeWhile (· != '-') = scope.owner.toList := by
  have hall : ∀ c ∈ scope.owner.toList, (c != '-') = true := fun c hc => by
    rw [bne_iff_ne]
    exact fun heq => h (heq ▸ hc)
  rcases scope.toList_parentId with ⟨-, htext⟩ | ⟨suffix, -, htext⟩
  · rw [htext, List.takeWhile_eq_self_iff.mpr hall]
  · rw [htext, List.takeWhile_append_of_pos hall]
    simp

/-- **Without hyphens in ids every scope is given back by its text.** -/
theorem parse?_parentId_of_plain (hplain : ∀ id, isKnown id = true → '-' ∉ id.toList)
    (hknown : isKnown scope.owner = true) : parse? isKnown scope.parentId = some scope := by
  rw [parse?_parentId_iff hknown]
  intro other hother htext
  have howner : other.owner = scope.owner := by
    rw [← String.toList_inj, ← takeWhile_parentId (hplain _ hother), htext,
      takeWhile_parentId (hplain _ hknown)]
  rw [howner]

end Scope

end StepGraph
