import DatasetCatalog.Proofs.Document.ChangeRules
import DatasetCatalog.Proofs.OrderedMap
import Mathlib.Data.List.Perm.Basic

/-!
# The rule that decides

A path is looked up before its ancestors and these from the nearest one on, so the rule that is
found is the one with the longest path that leads to a difference (`ruleFor?_eq_some_iff`). It alone
decides whether the difference is allowed, so a rule may take back what one further up allows. Only
a rule for any change takes nothing back, wherever it is put (`Permitted.insert_any`).
-/

namespace DatasetCatalog

namespace FieldPath

variable {p q : FieldPath}

theorem parent?_eq_some_iff : q.parent? = some p ↔ ∃ s, q = p ++ [s] := by
  rw [parent?]
  constructor
  · intro h
    split at h
    next => cases h
    next hne =>
      cases h
      have hne : q ≠ [] := fun hnil => hne (List.isEmpty_iff.mpr hnil)
      exact ⟨q.getLast hne, (List.dropLast_append_getLast hne).symm⟩
  · rintro ⟨s, rfl⟩
    simp

/-- The longest comes first. -/
theorem pairwise_cons_ancestors (q : FieldPath) :
    (q :: q.ancestors).Pairwise fun longer shorter => shorter.length < longer.length := by
  refine List.pairwise_cons.mpr ⟨fun p hp => ?_, ?_⟩
  · obtain ⟨n, hn, rfl⟩ := List.mem_map.mp hp
    rw [List.mem_reverse, List.mem_range] at hn
    rwa [List.length_take_of_le (Nat.le_of_lt hn)]
  · rw [ancestors, List.pairwise_map, List.pairwise_reverse]
    refine List.pairwise_lt_range.imp_of_mem fun {m n} hm hn hlt => ?_
    rw [List.mem_range] at hm hn
    rwa [List.length_take_of_le (Nat.le_of_lt hm), List.length_take_of_le (Nat.le_of_lt hn)]

end FieldPath

namespace AllowedChange

/-- What a rule at `p` allows: anything, or that a field with no value on one side is the one at `p`
or a direct child of it. -/
def Covers (change : AllowedChange) (p : FieldPath) (d : Difference) : Prop :=
  match change with
  | .any => True
  | .addition => d.path = p ∧ d.left = none
  | .removal => d.path = p ∧ d.right = none
  | .extension => (∃ s, d.path = p ++ [s]) ∧ d.left = none
  | .truncation => (∃ s, d.path = p ++ [s]) ∧ d.right = none

theorem permits_iff {change : AllowedChange} {p : FieldPath} {d : Difference} :
    change.permits p d = true ↔ change.Covers p d := by
  cases change with
  | any => exact ⟨fun _ => trivial, fun _ => rfl⟩
  | addition | removal =>
      simp only [permits, Covers, Bool.and_eq_true, beq_iff_eq, Option.isNone_iff_eq_none]
  | extension | truncation =>
      simp only [permits, Covers, Bool.and_eq_true, beq_iff_eq, Option.isNone_iff_eq_none,
        FieldPath.parent?_eq_some_iff]

end AllowedChange

namespace ChangeRules

variable {rules : ChangeRules} {path p q : FieldPath} {change : AllowedChange} {d : Difference}

/-- The rule with the longest path among those at the path or above it. -/
structure Governs (rules : ChangeRules) (path p : FieldPath) (change : AllowedChange) : Prop where
  found : rules.find? p = some change
  above : p <+: path
  longest : ∀ q ∈ rules.keys, q <+: path → q.length ≤ p.length

/-- The rule with the longest path that leads to the difference allows it. -/
def Permitted (rules : ChangeRules) (d : Difference) : Prop :=
  ∃ p change, rules.Governs d.path p change ∧ change.Covers p d

theorem governs_of_ruleFor? (h : rules.ruleFor? path = some (p, change)) :
    rules.Governs path p change := by
  obtain ⟨habove, hfind⟩ := isPrefix_of_ruleFor? h
  refine ⟨hfind, habove, fun q hq hleads => ?_⟩
  obtain ⟨before, first, after, hsplit, hfirst, hbefore⟩ := List.findSome?_eq_some_iff.mp h
  obtain ⟨_, -, ⟨⟩⟩ := Option.map_eq_some_iff.mp hfirst
  obtain ⟨other, hother⟩ := OrderedMap.mem_keys_iff.mp hq
  have horder := FieldPath.pairwise_cons_ancestors path
  have hmem := FieldPath.mem_cons_ancestors_iff.mpr hleads
  rw [hsplit] at horder hmem
  -- Nothing was found before the first rule, so `q` is its path or comes later.
  rcases List.mem_append.mp hmem with hearlier | hlater
  · have hnone := hbefore q hearlier
    rw [hother] at hnone
    cases hnone
  · rcases List.mem_cons.mp hlater with rfl | hafter
    · exact Nat.le_refl _
    · have hlater := (List.pairwise_cons.mp (List.pairwise_append.mp horder).2.1).1 q hafter
      exact Nat.le_of_lt hlater

/-- Of two paths above one path the shorter is above the longer. -/
theorem Governs.unique {change' : AllowedChange} (h : rules.Governs path p change)
    (h' : rules.Governs path q change') : p = q ∧ change = change' := by
  have hp : p ∈ rules.keys := OrderedMap.mem_keys_iff.mpr ⟨change, h.found⟩
  have hq : q ∈ rules.keys := OrderedMap.mem_keys_iff.mpr ⟨change', h'.found⟩
  have hpq := List.prefix_of_prefix_length_le h.above h'.above (h'.longest p hp h.above)
  obtain rfl := hpq.eq_of_length_le (h.longest q hq h'.above)
  exact ⟨rfl, Option.some.inj (h.found.symm.trans h'.found)⟩

theorem ruleFor?_eq_some_iff :
    rules.ruleFor? path = some (p, change) ↔ rules.Governs path p change := by
  refine ⟨governs_of_ruleFor?, fun h => ?_⟩
  obtain ⟨⟨q, change'⟩, hrule⟩ := Option.isSome_iff_exists.mp (isSome_ruleFor? h.above h.found)
  obtain ⟨rfl, rfl⟩ := h.unique (governs_of_ruleFor? hrule)
  exact hrule

theorem allows_iff : rules.allows d = true ↔ rules.Permitted d := by
  rw [allows]
  constructor
  · intro h
    split at h
    next p change hrule =>
      exact ⟨p, change, governs_of_ruleFor? hrule, AllowedChange.permits_iff.mp h⟩
    next => cases h
  · rintro ⟨p, change, hgoverns, hcovers⟩
    rw [ruleFor?_eq_some_iff.mpr hgoverns]
    exact AllowedChange.permits_iff.mpr hcovers

/-- The new rule decides or is passed over. -/
theorem Permitted.insert_any (h : rules.Permitted d) (p : FieldPath) :
    Permitted (rules.insert p .any) d := by
  obtain ⟨q, change, hq, hcovers⟩ := h
  have hkeys : ∀ r ∈ OrderedMap.keys (rules.insert p .any), r = p ∨ r ∈ rules.keys := by
    intro r hr
    rw [OrderedMap.mem_keys_iff, ← OrderedMap.contains_iff, OrderedMap.contains_insert] at hr
    exact hr.imp_right fun hr => OrderedMap.mem_keys_iff.mpr (OrderedMap.contains_iff.mp hr)
  -- The new rule may be put in place of the old one, when both paths are equally long.
  by_cases hnew : p <+: d.path ∧ q.length ≤ p.length
  · refine ⟨p, .any, ⟨OrderedMap.find?_insert_self rules p .any, hnew.1, ?_⟩, trivial⟩
    intro r hr hleads
    rcases hkeys r hr with rfl | hr
    · exact Nat.le_refl _
    · exact Nat.le_trans (hq.longest r hr hleads) hnew.2
  · have hne : q ≠ p := by
      rintro rfl
      exact hnew ⟨hq.above, Nat.le_refl _⟩
    refine ⟨q, change, ⟨?_, hq.above, ?_⟩, hcovers⟩
    · rw [OrderedMap.find?_insert_of_ne rules .any hne, hq.found]
    · intro r hr hleads
      rcases hkeys r hr with rfl | hr
      · exact Nat.le_of_not_le fun hle => hnew ⟨hleads, hle⟩
      · exact hq.longest r hr hleads

theorem mem_allowed_iff {ds : List Difference} :
    d ∈ (rules.classify ds).allowed ↔ d ∈ ds ∧ rules.Permitted d := by
  rw [classify, List.mem_filter, allows_iff]

theorem mem_refused_iff {ds : List Difference} :
    d ∈ (rules.classify ds).refused ↔ d ∈ ds ∧ ¬ rules.Permitted d := by
  rw [classify, List.mem_filter, Bool.not_eq_true', ← Bool.not_eq_true, allows_iff]

/-- A classification splits the differences in their order, by what the rule with the longest path
that leads to each of them allows. With one more rule for any change, at any path, what was allowed
still is. -/
theorem classify_by_longest_rule (rules : ChangeRules) (ds : List Difference) :
    (rules.classify ds).allowed.Sublist ds ∧ (rules.classify ds).refused.Sublist ds ∧
      ((rules.classify ds).allowed ++ (rules.classify ds).refused).Perm ds ∧
      (∀ d ∈ ds, (d ∈ (rules.classify ds).allowed ↔ rules.Permitted d) ∧
        (d ∈ (rules.classify ds).refused ↔ ¬ rules.Permitted d)) ∧
      ∀ p : FieldPath, (rules.classify ds).allowed.Sublist
          (classify (rules.insert p .any) ds).allowed ∧
        (classify (rules.insert p .any) ds).refused.Sublist (rules.classify ds).refused := by
  refine ⟨List.filter_sublist, List.filter_sublist, List.filter_append_perm rules.allows ds, ?_, ?_⟩
  · intro d hd
    rw [mem_allowed_iff, mem_refused_iff]
    exact ⟨and_iff_right hd, and_iff_right hd⟩
  · intro p
    have hmore : ∀ d, rules.allows d = true → allows (rules.insert p .any) d = true :=
      fun d hd => allows_iff.mpr ((allows_iff.mp hd).insert_any p)
    refine ⟨List.monotone_filter_right ds hmore, List.monotone_filter_right ds fun d hd => ?_⟩
    rw [Bool.not_eq_true'] at hd ⊢
    exact Bool.eq_false_iff.mpr fun hallowed => Bool.eq_false_iff.mp hd (hmore d hallowed)

section Platform

/-- The properties may change, but of the platform they may only gain one. -/
def platformRules : ChangeRules :=
  (OrderedMap.empty.insert [.key "properties"] .any).insert
    [.key "properties", .key "platform"] .addition

def codeChange : Difference :=
  ⟨[.key "properties", .key "platform", .key "code"], some (.text "a"), some (.text "b")⟩

def coverChange : Difference :=
  ⟨[.key "properties", .key "cover", .index 0], some (.text "a"), none⟩

/-- The platform's own rule takes the change of its code back. A rule for the code alone would give
it back again, and leave what else may change as it is. -/
theorem codeChange_by_longest_rule :
    platformRules.classify [codeChange, coverChange] = ⟨[coverChange], [codeChange]⟩ ∧
      ¬ platformRules.Permitted codeChange ∧ platformRules.Permitted coverChange ∧
      coverChange ∈ (classify (platformRules.insert codeChange.path .any)
        [codeChange, coverChange]).allowed := by
  have hsplit : platformRules.classify [codeChange, coverChange] =
      ⟨[coverChange], [codeChange]⟩ := by
    rfl
  obtain ⟨-, -, -, hjudged, hany⟩ :=
    classify_by_longest_rule platformRules [codeChange, coverChange]
  obtain ⟨-, hcode⟩ := hjudged codeChange List.mem_cons_self
  obtain ⟨hcover, -⟩ := hjudged coverChange (List.mem_cons_of_mem _ List.mem_cons_self)
  rw [hsplit] at hcode hcover hany
  exact ⟨hsplit, hcode.mp List.mem_cons_self, hcover.mp List.mem_cons_self,
    (hany codeChange.path).1.subset List.mem_cons_self⟩

end Platform

end ChangeRules

end DatasetCatalog
