import StepGraph.Proofs.Kind.Bound

/-!
# Where aliases lead

Aliases are given from the first to the last, and for one tag the last one
counts. A tag under the aliases stands for what the tag that it comes to
stands for among the built-in kinds (`get?_aliasTarget`), and a tag that stands
for nothing is not an alias (`aliasTarget_eq_of_get?_eq_none`).
-/

namespace StepGraph

/-- **The tag that a tag comes to** under aliases: the target of the last alias
for it, or the tag itself. -/
def aliasTarget (aliases : List (String × String)) (tag : String) : String :=
  aliases.foldl (fun target pair => if pair.1 = tag then pair.2 else target) tag

/-- **Proper aliases**: the tags of users are not those of built-in kinds, and
the targets are. -/
structure ProperAliases (aliases : List (String × String)) : Prop where
  tags : ∀ pair ∈ aliases, Builtin.ofTag? pair.1 = none
  targets : ∀ pair ∈ aliases, (Builtin.ofTag? pair.2).isSome

instance (aliases : List (String × String)) : Decidable (ProperAliases aliases) :=
  decidable_of_iff ((∀ pair ∈ aliases, Builtin.ofTag? pair.1 = none) ∧
      ∀ pair ∈ aliases, (Builtin.ofTag? pair.2).isSome)
    ⟨fun h => ⟨h.1, h.2⟩, fun h => ⟨h.tags, h.targets⟩⟩

/-- The second alias for a tag counts. -/
example : aliasTarget [("step", "group"), ("step", "action")] "step" = "action" ∧
    ProperAliases [("step", "group"), ("step", "action")] := by decide

variable {aliases : List (String × String)} {registry : Registry} {tag target : String}

/-- What aliases come to is where they began, or the target of one of them. -/
theorem foldl_alias_cases :
    aliases.foldl (fun target pair => if pair.1 = tag then pair.2 else target) target = target ∨
      ∃ pair ∈ aliases, pair.1 = tag ∧
        aliases.foldl (fun target pair => if pair.1 = tag then pair.2 else target) target =
          pair.2 := by
  induction aliases generalizing target with
  | nil => exact .inl rfl
  | cons first rest ih =>
    rw [List.foldl_cons]
    rcases @ih (if first.1 = tag then first.2 else target) with hrest | ⟨pair, hpair, htag, hrest⟩
    · rw [hrest]
      by_cases hfirst : first.1 = tag
      · exact .inr ⟨first, List.mem_cons_self, hfirst, if_pos hfirst⟩
      · exact .inl (if_neg hfirst)
    · exact .inr ⟨pair, List.mem_cons_of_mem _ hpair, htag, hrest⟩

/-- What a tag stands for follows the aliases. -/
theorem get?_withAliases (htargets : ∀ pair ∈ aliases, (Builtin.ofTag? pair.2).isSome)
    (h : Registry.builtin.get? target = registry.get? tag) :
    Registry.builtin.get?
        (aliases.foldl (fun target pair => if pair.1 = tag then pair.2 else target) target) =
      (registry.withAliases aliases).get? tag := by
  induction aliases generalizing registry target with
  | nil => exact h
  | cons first rest ih =>
    obtain ⟨hfirst, hrest⟩ := List.forall_mem_cons.mp htargets
    obtain ⟨b, hb⟩ := Option.isSome_iff_exists.mp hfirst
    have hregister : registry.withAlias first.1 first.2 = registry.insert first.1 b.kind := by
      rw [Registry.withAlias, hb]
    rw [List.foldl_cons]
    refine ih hrest ?_
    dsimp only
    rw [hregister, Registry.get?_insert]
    by_cases htag : first.1 = tag
    · rw [if_pos htag, if_pos htag.symm, Registry.get?_builtin, hb, Option.map_some]
    · rw [if_neg htag, if_neg (Ne.symm htag), h]

namespace ProperAliases

variable (h : ProperAliases aliases)
include h

/-- **A tag stands for what the tag that it comes to stands for.** -/
theorem get?_aliasTarget (tag : String) :
    Registry.builtin.get? (aliasTarget aliases tag) =
      (Registry.builtin.withAliases aliases).get? tag :=
  get?_withAliases h.targets rfl

/-- The tag of a built-in kind comes to itself. -/
theorem aliasTarget_tag (b : Builtin) : aliasTarget aliases b.tag = b.tag := by
  rcases foldl_alias_cases with hself | ⟨pair, hpair, htag, -⟩
  · exact hself
  · have hnone := h.tags pair hpair
    rw [htag, Builtin.ofTag?_tag] at hnone
    cases hnone

/-- **A tag that stands for nothing comes to itself.** -/
theorem aliasTarget_eq_of_get?_eq_none
    (hnone : (Registry.builtin.withAliases aliases).get? tag = none) :
    aliasTarget aliases tag = tag := by
  rcases foldl_alias_cases with hself | ⟨pair, hpair, -, htarget⟩
  · exact hself
  · rw [← h.get?_aliasTarget, aliasTarget, htarget, Registry.get?_builtin,
      Option.map_eq_none_iff] at hnone
    have hsome := h.targets pair hpair
    rw [hnone] at hsome
    cases hsome

end ProperAliases

end StepGraph
