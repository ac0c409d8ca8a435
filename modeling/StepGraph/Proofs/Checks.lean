/-!
# Checks in a row

A check is a computation that may refuse. Checks in a row succeed when each
of them does (`forM_eq_ok_iff`, `mapM_eq_ok_iff`), and what one check hands
to the next can be named (`bind_eq_ok_iff`).
-/

namespace StepGraph.Checks

variable {ε α β : Type}

/-- Two steps succeed when the first does and the second does on its
result. -/
theorem bind_eq_ok_iff {x : Except ε α} {f : α → Except ε β} {b : β} :
    (x >>= f) = .ok b ↔ ∃ a, x = .ok a ∧ f a = .ok b := by
  cases x with
  | error e => simp [bind, Except.bind]
  | ok a => simp [bind, Except.bind]

/-- Two steps fail when the first does, or the second on the result of the
first. -/
theorem bind_eq_error_iff {x : Except ε α} {f : α → Except ε β} {e : ε} :
    (x >>= f) = .error e ↔ x = .error e ∨ ∃ a, x = .ok a ∧ f a = .error e := by
  cases x with
  | error e => simp [bind, Except.bind]
  | ok a => simp [bind, Except.bind]

/-- A step that has succeeded is gone through. -/
theorem ok_bind (a : α) (f : α → Except ε β) : (Except.ok a >>= f) = f a := rfl

/-- A check without a result is followed by what comes next. -/
theorem check_bind_eq_ok_iff {x : Except ε Unit} {y : Except ε β} {b : β} :
    (x >>= fun _ => y) = .ok b ↔ x = .ok () ∧ y = .ok b := by
  rw [bind_eq_ok_iff]
  exact ⟨fun ⟨_, hx, hy⟩ => ⟨hx, hy⟩, fun ⟨hx, hy⟩ => ⟨(), hx, hy⟩⟩

/-- Returning a value is returning that value. -/
theorem pure_eq_ok_iff {a b : α} : (pure a : Except ε α) = .ok b ↔ a = b :=
  ⟨fun h => Except.ok.inj h, fun h => h ▸ rfl⟩

/-- A result that is made into another. -/
theorem map_eq_ok_iff {f : α → β} {x : Except ε α} {b : β} :
    f <$> x = .ok b ↔ ∃ a, x = .ok a ∧ f a = b := by
  cases x <;> simp [Functor.map, Except.map]

/-- A check fails when it does not succeed. -/
theorem exists_eq_error_iff {x : Except ε Unit} : (∃ e, x = .error e) ↔ x ≠ .ok () := by
  cases x <;> simp

/-- A choice between going on and refusing succeeds where it goes on. -/
theorem ite_error_eq_ok_iff {p : Prop} [Decidable p] {e : ε} {x : Except ε α} {a : α} :
    (if p then .error e else x) = .ok a ↔ ¬ p ∧ x = .ok a := by
  by_cases h : p <;> simp [h]

/-- A loop of checks succeeds when each check does. -/
theorem forM_eq_ok_iff {f : α → Except ε Unit} {l : List α} :
    l.forM f = .ok () ↔ ∀ a ∈ l, f a = .ok () := by
  induction l with
  | nil => exact ⟨fun _ _ h => (by cases h), fun _ => rfl⟩
  | cons a l ih =>
    rw [show (a :: l).forM f = (f a >>= fun _ => l.forM f) from rfl, check_bind_eq_ok_iff, ih,
      List.forall_mem_cons]

/-- **A loop of checks with results.** Where a check can only return what
`g` says, the loop succeeds when each check does, and returns what `g`
says. -/
theorem mapM_eq_ok_iff {f : α → Except ε β} {g : α → β}
    (hg : ∀ a b, f a = .ok b → b = g a) {l : List α} {r : List β} :
    l.mapM f = .ok r ↔ r = l.map g ∧ ∀ a ∈ l, f a = .ok (g a) := by
  induction l generalizing r with
  | nil =>
    rw [List.mapM_nil, pure_eq_ok_iff]
    exact ⟨fun h => ⟨h.symm, fun _ h => (by cases h)⟩, fun h => h.1.symm⟩
  | cons a l ih =>
    simp only [List.mapM_cons, bind_eq_ok_iff, pure_eq_ok_iff, List.map_cons,
      List.forall_mem_cons]
    constructor
    · rintro ⟨b, hb, rs, hrs, rfl⟩
      obtain ⟨rfl, hall⟩ := ih.mp hrs
      obtain rfl := hg a b hb
      exact ⟨rfl, hb, hall⟩
    · rintro ⟨rfl, ha, hall⟩
      exact ⟨g a, ha, l.map g, ih.mpr ⟨rfl, hall⟩, rfl⟩

/-- **A loop that carries a state** fails at the first of its steps that does. -/
theorem foldlM_eq_error_iff {f : β → α → Except ε β} {start : β} {l : List α} {e : ε} :
    l.foldlM f start = .error e ↔
      ∃ before a behind b, l = before ++ a :: behind ∧ before.foldlM f start = .ok b ∧
        f b a = .error e := by
  induction l generalizing start with
  | nil =>
    constructor
    · rintro ⟨⟩
    · rintro ⟨before, a, behind, b, hl, -⟩
      exact absurd hl (List.append_ne_nil_of_right_ne_nil before (List.cons_ne_nil a behind)).symm
  | cons a l ih =>
    rw [List.foldlM_cons, bind_eq_error_iff]
    constructor
    · rintro (hfirst | ⟨next, hfirst, hrest⟩)
      · exact ⟨[], a, l, start, rfl, rfl, hfirst⟩
      · obtain ⟨before, other, behind, b, rfl, hbefore, hother⟩ := ih.mp hrest
        refine ⟨a :: before, other, behind, b, rfl, ?_, hother⟩
        rw [List.foldlM_cons, hfirst, ok_bind, hbefore]
    · rintro ⟨before, other, behind, b, hl, hbefore, hother⟩
      cases before with
      | nil =>
        cases hl
        cases hbefore
        exact .inl hother
      | cons first before =>
        cases hl
        rw [List.foldlM_cons, bind_eq_ok_iff] at hbefore
        obtain ⟨next, hfirst, hrest⟩ := hbefore
        exact .inr ⟨next, hfirst, ih.mpr ⟨before, other, behind, b, rfl, hrest, hother⟩⟩

/-! ## Readers -/

/-- **A loop of readers** that give what `g` says where `P` holds, and nothing
else. -/
theorem mapM_eq_some_iff {f : α → Option β} {P : α → Prop} {g : α → β} {l : List α}
    (h : ∀ a ∈ l, ∀ b, f a = some b ↔ P a ∧ b = g a) {r : List β} :
    l.mapM f = some r ↔ (∀ a ∈ l, P a) ∧ r = l.map g := by
  induction l generalizing r with
  | nil => simp [eq_comm]
  | cons a l ih =>
    obtain ⟨ha, hl⟩ := List.forall_mem_cons.mp h
    simp only [List.mapM_cons, Option.bind_eq_bind, Option.bind_eq_some_iff, ha, ih hl,
      List.forall_mem_cons, List.map_cons]
    constructor
    · rintro ⟨b, ⟨hP, rfl⟩, rs, ⟨hall, rfl⟩, ⟨⟩⟩
      exact ⟨⟨hP, hall⟩, rfl⟩
    · rintro ⟨⟨hP, hall⟩, rfl⟩
      exact ⟨g a, ⟨hP, rfl⟩, l.map g, ⟨hall, rfl⟩, rfl⟩

/-- Readers that always give something. -/
theorem mapM_some_map (f : α → β) (l : List α) :
    l.mapM (fun a => some (f a)) = some (l.map f) :=
  List.mapM_pure

theorem mapM_some (l : List α) : l.mapM (fun a => some a) = some l := by
  rw [mapM_some_map fun a => a, List.map_id']

end StepGraph.Checks
