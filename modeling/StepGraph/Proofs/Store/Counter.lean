import StepGraph.Proofs.Ids.Fresh
import StepGraph.Proofs.Store.Change

/-!
# The counter of sequence numbers

While the counter has not gone round, each number it gives out is one more
than the last (`Counter.Exact.number_next`). The counter over nodes has not,
unless one of them has the last number (`Store.exact_sequenceAfter_iff`), and
then it stands behind all of them (`Store.sequence_lt_sequenceAfter`). A counter
never comes back from going round, so if it is exact after an operation or a
run, it has been exact throughout (`Change.exact`, `exact_of_performAll`). How
far a counter has come with all its rounds is its count (`Counter.count`), of
which the number is what 64 bits leave.
-/

namespace StepGraph

variable {c : Counter} {nodes : List Node} {store after : Store}

namespace Counter

/-- How far the counter has come, all rounds together. -/
@[irreducible]
def count (c : Counter) : Nat :=
  c.rounds * UInt64.size + c.number

/-- The counter of an empty store. -/
theorem count_zero : (⟨0, 0⟩ : Counter).count = 0 := by
  simp only [count, number, Nat.zero_mul, UInt64.toNat_zero, Nat.add_zero]

theorem number_lt (c : Counter) : c.number < UInt64.size :=
  c.word.toNat_lt

/-- The number is what 64 bits leave of the count. -/
theorem number_eq_mod (c : Counter) : c.number = c.count % UInt64.size := by
  rw [count, Nat.mul_comm, Nat.mul_add_mod, Nat.mod_eq_of_lt c.number_lt]

/-- **The count goes on by one**, also where the word goes round. -/
theorem count_next (c : Counter) : c.next.count = c.count + 1 := by
  have hword : (c.word + 1).toNat = (c.number + 1) % UInt64.size := UInt64.toNat_add _ _
  rcases Nat.lt_or_eq_of_le (Nat.succ_le_of_lt c.number_lt) with hbelow | hlast
  · rw [Nat.mod_eq_of_lt hbelow] at hword
    have hnonzero : c.word + 1 ≠ 0 := fun hzero => by
      rw [hzero] at hword
      exact Nat.succ_ne_zero _ hword.symm
    rw [count, count, number, next, if_neg hnonzero, Nat.add_assoc]
    exact congrArg _ hword
  · rw [Nat.succ_eq_add_one] at hlast
    rw [hlast, Nat.mod_self] at hword
    have hzero : c.word + 1 = 0 := UInt64.toNat_inj.mp hword
    rw [count, count, Nat.add_assoc, hlast, number, next, if_pos hzero]
    dsimp only
    rw [hword, Nat.add_zero, Nat.succ_mul]

/-- A counter is exact as long as its count has 64 bits. -/
theorem exact_iff : c.Exact ↔ c.count < UInt64.size := by
  have hlt := c.number_lt
  rw [Exact, count]
  constructor
  · intro h
    rwa [h, Nat.zero_mul, Nat.zero_add]
  · intro h
    by_contra hrounds
    have hround : UInt64.size ≤ c.rounds * UInt64.size :=
      Nat.le_mul_of_pos_left _ (Nat.pos_of_ne_zero hrounds)
    omega

namespace Exact

/-- An exact counter gives out its count. -/
theorem number_eq (h : c.Exact) : c.number = c.count := by
  rw [number_eq_mod, Nat.mod_eq_of_lt (exact_iff.mp h)]

/-- No counter comes back from going round. -/
theorem of_next (h : c.next.Exact) : c.Exact := by
  rw [exact_iff, count_next] at h
  exact exact_iff.mpr (Nat.lt_of_succ_lt h)

/-- **The next number is one more.** -/
theorem number_next (h : c.next.Exact) : c.next.number = c.number + 1 := by
  rw [h.number_eq, h.of_next.number_eq, count_next]

theorem number_lt_next (h : c.next.Exact) : c.number < c.next.number :=
  h.number_next ▸ Nat.lt_succ_self _

end Exact

end Counter

/-! ## The counter over nodes -/

/-- The highest word has the highest number. -/
theorem foldl_max_toNat (words : List UInt64) (start : UInt64) :
    (words.map UInt64.toNat).foldl max start.toNat = (words.foldl max start).toNat := by
  have hmax (a b : UInt64) : max a.toNat b.toNat = (max a b).toNat := by
    rw [show max a b = if a ≤ b then b else a from rfl, Nat.max_def]
    simp only [UInt64.le_iff_toNat_le]
    split <;> rfl
  rw [List.foldl_map]
  exact List.foldl_hom UInt64.toNat hmax

/-- A maximum is bounded by what bounds all. -/
theorem foldl_max_le {numbers : List Nat} {start bound : Nat} (h : ∀ n ∈ numbers, n ≤ bound)
    (hstart : start ≤ bound) : numbers.foldl max start ≤ bound := by
  induction numbers generalizing start with
  | nil => exact hstart
  | cons number rest ih =>
    obtain ⟨hnumber, hrest⟩ := List.forall_mem_cons.mp h
    exact ih hrest (Nat.max_le.mpr ⟨hstart, hnumber⟩)

namespace Store

/-- **The counter over nodes is exact** when no node has the last number. -/
theorem exact_sequenceAfter_iff :
    (sequenceAfter nodes).Exact ↔ ∀ n ∈ nodes, n.sequence + 1 < UInt64.size := by
  have hreached : (sequenceAfter nodes).Exact ↔
      (nodes.map fun node => node.sequence + 1).foldl max 0 < UInt64.size :=
    Nat.div_eq_zero_iff.trans (or_iff_right (by decide))
  rw [hreached]
  constructor
  · intro h n hn
    have hmem := List.mem_map_of_mem (f := fun node : Node => node.sequence + 1) hn
    exact Nat.lt_of_le_of_lt (IdSource.le_foldl_max (.inl hmem)) h
  · intro h
    refine Nat.lt_of_le_pred (by decide) (foldl_max_le (fun number hnumber => ?_) (Nat.zero_le _))
    obtain ⟨n, hn, rfl⟩ := List.mem_map.mp hnumber
    exact Nat.le_pred_of_lt (h n hn)

/-- **An exact counter over nodes** stands behind the highest number. -/
theorem number_sequenceAfter (h : (sequenceAfter nodes).Exact) :
    (sequenceAfter nodes).number =
      (nodes.map fun node => node.sequence + 1).foldl max 0 := by
  rw [Counter.number, sequenceAfter, ← foldl_max_toNat, List.map_map]
  refine congrArg (List.foldl max 0) (List.map_congr_left fun n hn => ?_)
  rw [Function.comp_apply, UInt64.toNat_add, Nat.toUInt64_eq, UInt64.toNat_ofNat']
  exact (Nat.mod_add_mod _ _ _).trans (Nat.mod_eq_of_lt (exact_sequenceAfter_iff.mp h n hn))

/-- No node has reached the number that comes after all. -/
theorem sequence_lt_sequenceAfter {n : Node} (hn : n ∈ nodes) (h : (sequenceAfter nodes).Exact) :
    n.sequence < (sequenceAfter nodes).number := by
  have hmem := List.mem_map_of_mem (f := fun node : Node => node.sequence + 1) hn
  rw [number_sequenceAfter h]
  exact IdSource.le_foldl_max (.inl hmem)

/-- The counter over nodes that are below a number does not pass it. -/
theorem count_sequenceAfter_le {bound : Nat} (hbound : bound < UInt64.size)
    (h : ∀ n ∈ nodes, n.sequence < bound) : (sequenceAfter nodes).count ≤ bound := by
  have hexact : (sequenceAfter nodes).Exact :=
    exact_sequenceAfter_iff.mpr fun n hn => Nat.lt_of_le_of_lt (h n hn) hbound
  rw [← hexact.number_eq, number_sequenceAfter hexact]
  refine foldl_max_le (fun number hnumber => ?_) (Nat.zero_le _)
  obtain ⟨n, hn, rfl⟩ := List.mem_map.mp hnumber
  exact h n hn

end Store

/-! ## Operations -/

/-- A new node takes one number. -/
theorem Store.nextSequence_withNode {kind producer : String} {payload : Payload}
    {scope : Option Scope} (output : Option Output) :
    ((store.withNode kind payload scope).withOutput output producer).nextSequence =
      store.nextSequence.next := by
  cases output <;> rfl

/-- A plan takes one number at least. -/
theorem Counter.Exact.of_plan {plan : EdgePlan} (h : (plan.counter c).Exact) : c.next.Exact := by
  rw [EdgePlan.counter] at h
  split at h
  · exact h
  · exact h.of_next

/-- A plan takes one number for each node that it moves. -/
theorem EdgePlan.count_counter (plan : EdgePlan) (c : Counter) :
    (plan.counter c).count = c.count + (if plan.orphan.isSome then 2 else 1) := by
  rw [EdgePlan.counter]
  cases plan.orphan with
  | none => exact c.count_next
  | some orphan =>
    dsimp only [Option.isSome_some]
    rw [Counter.count_next, Counter.count_next, if_pos rfl]

/-- **A change takes two numbers at most.** -/
theorem Change.count_bounds {answer : Except EditError (Option String)}
    (h : Change store answer after) :
    store.nextSequence.count ≤ after.nextSequence.count ∧
      after.nextSequence.count ≤ store.nextSequence.count + 2 := by
  have hone : store.nextSequence.count ≤ store.nextSequence.next.count ∧
      store.nextSequence.next.count ≤ store.nextSequence.count + 2 := by
    rw [Counter.count_next]
    omega
  have hplan (plan : EdgePlan) :
      store.nextSequence.count ≤ (plan.counter store.nextSequence).count ∧
        (plan.counter store.nextSequence).count ≤ store.nextSequence.count + 2 := by
    rw [EdgePlan.count_counter]
    split <;> omega
  cases h with
  | refused | removed | redrawn | variableRegistered | assistantRegistered =>
    exact ⟨Nat.le_refl _, Nat.le_add_right _ _⟩
  | added output =>
    rw [Store.nextSequence_withNode]
    exact hone
  | @connected _ plan | @reconnected _ _ plan => exact hplan plan
  | disconnected => exact hone

/-- **A counter that is exact after a change** was exact before. -/
theorem Change.exact {answer : Except EditError (Option String)} (h : Change store answer after)
    (hexact : after.nextSequence.Exact) : store.nextSequence.Exact :=
  Counter.exact_iff.mpr (Nat.lt_of_le_of_lt h.count_bounds.1 (Counter.exact_iff.mp hexact))

/-- **A counter that is exact after a run** was exact before. -/
theorem exact_of_performAll (operations : List Operation)
    (h : (store.performAll operations).2.nextSequence.Exact) : store.nextSequence.Exact := by
  induction operations generalizing store with
  | nil => exact h
  | cons operation rest ih => exact (perform_change store operation).exact (ih h)

end StepGraph
