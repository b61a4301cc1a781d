import DatasetCatalog.Document.ChangeRules

/-!
# Where the rule for a path stands

The rule that judges a difference stands at the difference's path or above it.
-/

namespace DatasetCatalog

theorem FieldPath.isPrefix_of_mem_ancestors {p q : FieldPath} (h : p ∈ q.ancestors) : p <+: q := by
  obtain ⟨n, -, rfl⟩ := List.mem_map.mp h
  exact List.take_prefix n q

theorem FieldPath.mem_cons_ancestors_iff {p q : FieldPath} : p ∈ q :: q.ancestors ↔ p <+: q := by
  constructor
  · intro h
    rcases List.mem_cons.mp h with rfl | h
    · exact List.prefix_rfl
    · exact isPrefix_of_mem_ancestors h
  · intro h
    rcases Nat.lt_or_ge p.length q.length with hless | hmore
    · refine List.mem_cons_of_mem _ (List.mem_map.mpr ⟨p.length, ?_, ?_⟩)
      · exact List.mem_reverse.mpr (List.mem_range.mpr hless)
      · exact (List.prefix_iff_eq_take.mp h).symm
    · rw [h.eq_of_length_le hmore]
      exact List.mem_cons_self

namespace ChangeRules

variable {rules : ChangeRules}

theorem isPrefix_of_ruleFor? {path p : FieldPath} {change : AllowedChange}
    (h : rules.ruleFor? path = some (p, change)) : p <+: path ∧ rules.find? p = some change := by
  obtain ⟨q, hq, hfound⟩ := List.exists_of_findSome?_eq_some h
  obtain ⟨change, hchange, ⟨⟩⟩ := Option.map_eq_some_iff.mp hfound
  exact ⟨FieldPath.mem_cons_ancestors_iff.mp hq, hchange⟩

theorem isSome_ruleFor? {path p : FieldPath} {change : AllowedChange} (h : p <+: path)
    (hchange : rules.find? p = some change) : (rules.ruleFor? path).isSome = true := by
  rw [ruleFor?, List.isSome_findSome?, List.any_eq_true]
  exact ⟨p, FieldPath.mem_cons_ancestors_iff.mpr h, by rw [hchange]; rfl⟩

/-- No difference is allowed without a rule at its path or above. -/
theorem exists_rule_of_allows {d : Difference} (h : rules.allows d = true) :
    ∃ p ∈ rules.keys, p <+: d.path := by
  rw [allows] at h
  split at h
  next p change hrule =>
    obtain ⟨habove, hfind⟩ := isPrefix_of_ruleFor? hrule
    exact ⟨p, List.mem_map_of_mem (OrderedMap.find?_eq_some_iff.mp hfind), habove⟩
  next => cases h

/-- A single rule for any change allows the changes at its path and below. -/
theorem allows_single_any_iff {p : FieldPath} {d : Difference} :
    ChangeRules.allows (OrderedMap.empty.insert p .any) d = true ↔ p <+: d.path := by
  constructor
  · intro h
    obtain ⟨q, hq, hprefix⟩ := exists_rule_of_allows h
    cases List.mem_singleton.mp hq
    exact hprefix
  · intro h
    have hsome := isSome_ruleFor? h (OrderedMap.find?_insert_self OrderedMap.empty p .any)
    obtain ⟨⟨q, change⟩, hrule⟩ := Option.isSome_iff_exists.mp hsome
    have hchange := (isPrefix_of_ruleFor? hrule).2
    rw [OrderedMap.find?_insert, OrderedMap.find?_empty] at hchange
    split at hchange
    next =>
      cases hchange
      rw [allows, hrule]
      rfl
    next => cases hchange

end ChangeRules

end DatasetCatalog
