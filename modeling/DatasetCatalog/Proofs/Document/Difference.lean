import DatasetCatalog.Document.Difference
import DatasetCatalog.Proofs.Value.Agreement

/-!
# What the differences of two documents cover

`beneath s a b` lists what is found behind one step. `mem_differences` describes the differences of
two containers as the union of these lists over all steps, whatever the order in which they are
met, and everything else follows from it by induction on values or paths: no differences means the
same value, and a path that no difference touches has the same value on both sides.
-/

namespace DatasetCatalog

namespace FieldPath

/-- Neither path leads through the other. -/
def Apart (p q : FieldPath) : Prop := ¬ p <+: q ∧ ¬ q <+: p

instance (p q : FieldPath) : Decidable (Apart p q) :=
  inferInstanceAs (Decidable (¬ p <+: q ∧ ¬ q <+: p))

theorem Apart.tail {s : Step} {p q : FieldPath} (h : Apart (s :: p) (s :: q)) : Apart p q := by
  refine ⟨fun hp => h.1 ?_, fun hq => h.2 ?_⟩
  · exact (List.prefix_cons_inj s).mpr hp
  · exact (List.prefix_cons_inj s).mpr hq

end FieldPath

namespace Difference

theorem insertByPath_perm (d : Difference) (ds : List Difference) :
    (insertByPath d ds).Perm (d :: ds) := by
  induction ds with
  | nil => rfl
  | cons e rest ih =>
      simp only [insertByPath]
      split
      · rfl
      · exact (ih.cons e).trans (.swap d e rest)

theorem sortByPath_perm (ds : List Difference) : (sortByPath ds).Perm ds := by
  induction ds with
  | nil => rfl
  | cons d rest ih => exact (insertByPath_perm d _).trans (ih.cons d)

end Difference

namespace Value

/-- The differences found behind one step, given what the two sides have there. -/
def beneath (s : Step) : Option Value → Option Value → List Difference
  | none, none => []
  | some l, some r => (differences l r).map (.under s)
  | l, r => [⟨[s], l, r⟩]

theorem mem_fieldDifferences {d : Difference} {ls rs : Fields} :
    d ∈ fieldDifferences ls rs ↔ ∃ f ∈ ls, d ∈ beneath (.key f.1) (some f.2) (rs.find? f.1) := by
  induction ls with
  | nil => simp [fieldDifferences]
  | cons f ls ih =>
      obtain ⟨k, l⟩ := f
      simp only [fieldDifferences, List.mem_append, ih, List.exists_mem_cons_iff]
      cases rs.find? k <;> simp [beneath]

theorem mem_addedFields {d : Difference} {ls rs : Fields} :
    d ∈ addedFields ls rs ↔
      ∃ f ∈ rs, ls.find? f.1 = none ∧ d = ⟨[.key f.1], none, some f.2⟩ := by
  simp only [addedFields, List.mem_map, List.mem_filter, Fields.contains, Bool.not_eq_true',
    Option.isSome_eq_false_iff, Option.isNone_iff_eq_none]
  constructor
  · rintro ⟨f, ⟨hf, hnone⟩, rfl⟩
    exact ⟨f, hf, hnone, rfl⟩
  · rintro ⟨f, hf, hnone, rfl⟩
    exact ⟨f, ⟨hf, hnone⟩, rfl⟩

/-- The keys of the left mapping, then those that only the right one has, are all keys. -/
theorem mem_fieldDifferences_append {d : Difference} {ls rs : Fields} (hl : ls.keys.Nodup)
    (hr : rs.keys.Nodup) : d ∈ fieldDifferences ls rs ++ addedFields ls rs ↔
      ∃ k, d ∈ beneath (.key k) (ls.find? k) (rs.find? k) := by
  rw [List.mem_append, mem_fieldDifferences, mem_addedFields]
  constructor
  · rintro (⟨⟨k, l⟩, hf, hd⟩ | ⟨⟨k, r⟩, hf, hnone, rfl⟩)
    · refine ⟨k, ?_⟩
      rw [(Fields.mem_iff_find? hl).mp hf]
      exact hd
    · refine ⟨k, ?_⟩
      rw [hnone, (Fields.mem_iff_find? hr).mp hf]
      exact List.mem_singleton_self _
  · rintro ⟨k, hd⟩
    cases hv : ls.find? k with
    | some l =>
        rw [hv] at hd
        exact .inl ⟨(k, l), Fields.mem_of_find? hv, hd⟩
    | none =>
        cases hw : rs.find? k with
        | none => rw [hv, hw] at hd; cases hd
        | some r =>
            rw [hv, hw] at hd
            exact .inr ⟨(k, r), Fields.mem_of_find? hw, hv, List.mem_singleton.mp hd⟩

theorem mem_addedItems {d : Difference} {i : Nat} {rs : List Value} :
    d ∈ addedItems i rs ↔ ∃ j, d ∈ beneath (.index (i + j)) none rs[j]? := by
  induction rs generalizing i with
  | nil => simp [addedItems, beneath]
  | cons r rs ih =>
      simp only [addedItems, List.mem_cons, ih]
      constructor
      · rintro (rfl | ⟨j, hd⟩)
        · exact ⟨0, List.mem_singleton_self _⟩
        · refine ⟨j + 1, ?_⟩
          rw [show i + (j + 1) = i + 1 + j by omega]
          exact hd
      · rintro ⟨_ | j, hd⟩
        · exact .inl (List.mem_singleton.mp hd)
        · refine .inr ⟨j, ?_⟩
          rw [show i + 1 + j = i + (j + 1) by omega]
          exact hd

theorem mem_itemDifferences {d : Difference} {i : Nat} {ls rs : List Value} :
    d ∈ itemDifferences i ls rs ↔ ∃ j, d ∈ beneath (.index (i + j)) ls[j]? rs[j]? := by
  induction ls generalizing i rs with
  | nil => simp only [itemDifferences, mem_addedItems, List.getElem?_nil]
  | cons l ls ih =>
      have hsplit : d ∈ itemDifferences i (l :: ls) rs ↔
          d ∈ beneath (.index i) (some l) rs[0]? ∨ d ∈ itemDifferences (i + 1) ls rs.tail := by
        cases rs <;> simp [itemDifferences, beneath]
      rw [hsplit, ih]
      constructor
      · rintro (hd | ⟨j, hd⟩)
        · exact ⟨0, hd⟩
        · refine ⟨j + 1, ?_⟩
          rw [List.getElem?_tail] at hd
          rw [show i + (j + 1) = i + 1 + j by omega]
          exact hd
      · rintro ⟨_ | j, hd⟩
        · exact .inl hd
        · refine .inr ⟨j, ?_⟩
          rw [show i + 1 + j = i + (j + 1) by omega, List.getElem?_tail]
          exact hd

theorem differences_of_sameValue {l r : Value} (h : l.sameValue .sensitive r = true) :
    differences l r = [] := by
  rw [differences.eq_def, if_pos h]

theorem differences_of_not_sameContainer {l r : Value} (h : l.sameValue .sensitive r = false)
    (hc : ¬ SameContainer l r) : differences l r = [⟨[], some l, some r⟩] := by
  rw [differences.eq_def, if_neg (by rw [h]; exact Bool.false_ne_true)]
  split
  · exact (hc trivial).elim
  · exact (hc trivial).elim
  · rfl

theorem beneath_of_agree {s : Step} {a b : Option Value} (h : Agree .sensitive a b) :
    beneath s a b = [] := by
  cases a <;> cases b
  · rfl
  · exact h.elim
  · exact h.elim
  · rw [beneath, differences_of_sameValue h, List.map_nil]

/-- The differences of two containers are those behind each step. -/
theorem mem_differences {l r : Value} (hl : l.WellFormed) (hr : r.WellFormed)
    (hc : SameContainer l r) {d : Difference} :
    d ∈ differences l r ↔ ∃ s, d ∈ beneath s (l.step? s) (r.step? s) := by
  by_cases hsame : l.sameValue .sensitive r = true
  · rw [differences_of_sameValue hsame]
    simp only [List.not_mem_nil, false_iff, not_exists]
    intro s hd
    rw [beneath_of_agree (agree_step? hl hr hsame s)] at hd
    cases hd
  · rw [differences.eq_def, if_neg hsame]
    cases l <;> cases r <;> simp only [SameContainer] at hc
    case sequence.sequence ls rs =>
      simp only [mem_itemDifferences, Nat.zero_add]
      constructor
      · rintro ⟨j, hd⟩
        exact ⟨.index j, hd⟩
      · rintro ⟨k | j, hd⟩
        · cases hd
        · exact ⟨j, hd⟩
    case mapping.mapping ls rs =>
      simp only [mem_fieldDifferences_append hl.keys_nodup hr.keys_nodup]
      constructor
      · rintro ⟨k, hd⟩
        exact ⟨.key k, hd⟩
      · rintro ⟨k | j, hd⟩
        · exact ⟨k, hd⟩
        · cases hd

/-- Every difference of two sequences leads through an index. -/
theorem path_of_mem_differences_sequence {ls rs : List Value} (hl : (sequence ls).WellFormed)
    (hr : (sequence rs).WellFormed) {d : Difference}
    (hd : d ∈ differences (sequence ls) (sequence rs)) : ∃ i rest, d.path = .index i :: rest := by
  obtain ⟨k | i, hd⟩ := (mem_differences hl hr trivial).mp hd
  · cases hd
  refine ⟨i, ?_⟩
  change d ∈ beneath (.index i) ls[i]? rs[i]? at hd
  cases hlt : ls[i]? <;> cases hrt : rs[i]? <;> rw [hlt, hrt] at hd
  case none.none => cases hd
  case some.some =>
    obtain ⟨e, -, rfl⟩ := List.mem_map.mp hd
    exact ⟨e.path, rfl⟩
  all_goals
    cases List.mem_singleton.mp hd
    exact ⟨[], rfl⟩

/-- No differences means the same value, and nothing else does. -/
theorem differences_eq_nil_iff {l r : Value} (hl : l.WellFormed) (hr : r.WellFormed) :
    differences l r = [] ↔ l.sameValue .sensitive r = true := by
  refine ⟨fun h => ?_, differences_of_sameValue⟩
  induction hn : l.size using Nat.strongRecOn generalizing l r with
  | ind n ih =>
      by_contra hsame
      by_cases hc : SameContainer l r
      · apply hsame
        rw [sameValue_iff_step? hl hr hc]
        intro s
        -- One step down the left value is smaller, so an empty list there means agreement.
        have hempty : beneath s (l.step? s) (r.step? s) = [] := by
          rw [List.eq_nil_iff_forall_not_mem]
          intro d hd
          have : d ∈ differences l r := (mem_differences hl hr hc).mpr ⟨s, hd⟩
          rw [h] at this
          cases this
        cases hv : l.step? s <;> cases hw : r.step? s <;> rw [hv, hw] at hempty
        case none.none => trivial
        case some.some v w =>
          exact ih v.size (hn ▸ size_lt_of_step? hv) (hl.step? hv) (hr.step? hw)
            (List.map_eq_nil_iff.mp hempty) rfl
        all_goals cases hempty
      · rw [differences_of_not_sameContainer (Bool.not_eq_true _ ▸ hsame) hc] at h
        cases h

/-- A path that no difference leads to, through or past has the same value on both sides. -/
theorem agree_at?_of_apart {l r : Value} (hl : l.WellFormed) (hr : r.WellFormed) {q : FieldPath}
    (h : ∀ d ∈ differences l r, d.path.Apart q) : Agree .sensitive (l.at? q) (r.at? q) := by
  induction q generalizing l r with
  | nil =>
      refine (differences_eq_nil_iff hl hr).mp (List.eq_nil_iff_forall_not_mem.mpr ?_)
      intro d hd
      exact (h d hd).2 (List.nil_prefix)
  | cons s rest ih =>
      by_cases hsame : l.sameValue .sensitive r = true
      · exact agree_at? hl hr hsame (s :: rest)
      by_cases hc : SameContainer l r
      · have hs : ∀ d ∈ beneath s (l.step? s) (r.step? s), d.path.Apart (s :: rest) :=
          fun d hd => h d ((mem_differences hl hr hc).mpr ⟨s, hd⟩)
        have hedge : ¬ FieldPath.Apart [s] (s :: rest) :=
          fun hapart => hapart.1 ⟨rest, rfl⟩
        rw [at?_cons, at?_cons]
        cases hv : l.step? s <;> cases hw : r.step? s <;> rw [hv, hw] at hs
        case none.none => trivial
        case none.some => exact (hedge (hs _ (List.mem_singleton_self _))).elim
        case some.none => exact (hedge (hs _ (List.mem_singleton_self _))).elim
        case some.some v w =>
          refine ih (hl.step? hv) (hr.step? hw) fun d hd => ?_
          exact (hs (d.under s) (List.mem_map_of_mem hd)).tail
      · have hroot := h ⟨[], some l, some r⟩ (by
          rw [differences_of_not_sameContainer (Bool.not_eq_true _ ▸ hsame) hc]
          exact List.mem_singleton_self _)
        exact (hroot.1 List.nil_prefix).elim

end Value

namespace Document

theorem wellFormed_value (d : Document) : d.value.WellFormed := d.wellFormed

/-- Documents are compared as the mappings they are. -/
theorem mem_changes {left right : Document} {d : Difference} :
    d ∈ left.changes right ↔ d ∈ left.value.differences right.value := by
  rw [Value.mem_differences left.wellFormed_value right.wellFormed_value trivial, changes,
    (Difference.sortByPath_perm _).mem_iff,
    Value.mem_fieldDifferences_append left.wellFormed.keys_nodup right.wellFormed.keys_nodup]
  constructor
  · rintro ⟨k, hd⟩
    exact ⟨.key k, hd⟩
  · rintro ⟨k | i, hd⟩
    · exact ⟨k, hd⟩
    · cases hd

theorem changes_eq_nil_iff {left right : Document} :
    left.changes right = [] ↔ left.value.sameValue .sensitive right.value = true := by
  rw [← Value.differences_eq_nil_iff left.wellFormed_value right.wellFormed_value]
  simp only [List.eq_nil_iff_forall_not_mem, mem_changes]

@[simp] theorem changes_self (d : Document) : d.changes d = [] :=
  changes_eq_nil_iff.mpr (Value.sameValue_refl d.wellFormed_value)

/-- What no change touches reads the same in both documents. -/
theorem agree_get?_of_apart {left right : Document} {q : FieldPath}
    (h : ∀ d ∈ left.changes right, d.path.Apart q) :
    Value.Agree .sensitive (left.get? q) (right.get? q) := by
  rw [get?, get?]
  split
  · trivial
  · exact Value.agree_at?_of_apart left.wellFormed_value right.wellFormed_value
      fun d hd => h d (mem_changes.mpr hd)

end Document

end DatasetCatalog
