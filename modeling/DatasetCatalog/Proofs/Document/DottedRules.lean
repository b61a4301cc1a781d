import DatasetCatalog.Proofs.Document.ChangeRules
import DatasetCatalog.Proofs.FieldPath

/-!
# Rules given as dotted texts

The report of a difference shows its path as dotted text, and that text makes a rule. The rule
allows the difference if the path that is read stands above the one that was shown. Trimming keeps
every dot, so what is read has at least as many steps as what was shown, unless it is the root. So
the two paths are the same, or nothing was left to read.
-/

namespace DatasetCatalog

namespace FieldPath

variable {cs : List Char} {p : FieldPath}

theorem length_segments (cs : List Char) : (segments cs).length = cs.count '.' + 1 := by
  induction cs with
  | nil => rfl
  | cons c rest ih =>
      rw [segments]
      split
      next hc => rw [hc, List.length_cons, ih, List.count_cons_self]
      next hc =>
        rw [List.count_cons_of_ne hc, ← ih]
        obtain ⟨first, more, hsplit⟩ :=
          List.exists_cons_of_ne_nil (List.ne_nil_of_length_eq_add_one ih)
        rw [hsplit]
        rfl

theorem length_le_count_chars (p : FieldPath) : p.length ≤ p.chars.count '.' + 1 := by
  induction p with
  | nil => exact Nat.zero_le _
  | cons s rest ih =>
      cases rest with
      | nil => exact Nat.le_add_left _ _
      | cons next more =>
          rw [chars, List.count_append, List.count_cons_self, List.length_cons]
          · omega
          · exact List.cons_ne_nil _ _

/-- A text that is read as the root has nothing but blanks. -/
theorem isBlank_of_ofText_root {written : String} (h : ofText written = .ok []) :
    ∀ c ∈ written.toList, Text.isBlank c = true := by
  rcases parseTrimmed?_eq_some (ofText_eq_ok_iff.mp h) with ⟨hnil, -⟩ | ⟨-, hread⟩
  · exact Text.trim_eq_nil_iff.mp hnil
  · have hlength := hread.length_eq
    rw [length_segments] at hlength
    cases hlength

/-- What is read of a path's text, if it is not the root, has at least as many steps. -/
theorem length_le_of_ofText {q : FieldPath} (h : ofText p.text = .ok q) (hne : q ≠ []) :
    p.length ≤ q.length := by
  rcases parseTrimmed?_eq_some (ofText_eq_ok_iff.mp h) with ⟨-, hnil⟩ | ⟨-, hread⟩
  · exact absurd hnil hne
  · rw [← hread.length_eq, length_segments, Text.count_trim (by decide), text, String.toList_ofList]
    exact length_le_count_chars p

/-- Only a single key can be made of blanks alone. -/
theorem eq_key_of_isBlank (hne : p ≠ []) (h : ∀ c ∈ p.chars, Text.isBlank c = true) :
    ∃ k, p = [.key k] ∧ ∀ c ∈ k.toList, Text.isBlank c = true := by
  match p with
  | [] => exact absurd rfl hne
  | [.key k] => exact ⟨k, rfl, h⟩
  | [.index i] =>
      obtain ⟨c, rest, hdigits⟩ :=
        List.exists_cons_of_ne_nil (Nat.toDigits_ne_nil (b := 10) (n := i))
      have hc : c ∈ chars [.index i] := by
        rw [chars, Step.chars, hdigits]
        exact List.mem_cons_self
      have hblank := h c hc
      rw [Step.not_isBlank_of_index hc] at hblank
      cases hblank
  | s :: next :: more =>
      have hdot : '.' ∈ chars (s :: next :: more) :=
        List.mem_append_right _ List.mem_cons_self
      exact absurd (h '.' hdot) (by decide)

/-- What is read of a path's text stands at the path or above exactly if the path is legible or a
single key of blanks, whose text is read as the root. -/
theorem ofText_text_isPrefix_iff (p : FieldPath) : (∃ q, ofText p.text = .ok q ∧ q <+: p) ↔
    p.Legible ∨ ∃ k, p = [.key k] ∧ ∀ c ∈ k.toList, Text.isBlank c = true := by
  constructor
  · rintro ⟨q, hread, habove⟩
    rcases List.eq_nil_or_concat q with rfl | ⟨_, _, hq⟩
    · rcases List.eq_nil_or_concat p with rfl | ⟨_, _, hp⟩
      · exact .inl (legible_of_ofText hread)
      · have hblank := isBlank_of_ofText_root hread
        rw [text, String.toList_ofList] at hblank
        exact .inr (eq_key_of_isBlank (by simp [hp]) hblank)
    · have hlength := length_le_of_ofText hread (by simp [hq])
      rw [habove.eq_of_length_le hlength] at hread
      exact .inl (legible_of_ofText hread)
  · rintro (hlegible | ⟨k, rfl, hblank⟩)
    · exact ⟨p, ofText_text hlegible, List.prefix_rfl⟩
    · refine ⟨[], ?_, List.nil_prefix⟩
      rw [ofText_eq_ok_iff, Text.trim_eq_nil_iff.mpr]
      · rfl
      · rwa [text, String.toList_ofList]

end FieldPath

namespace ChangeRules

theorem allowAny_singleton (field : String) : allowAny [field] =
    (FieldPath.ofText field).map fun p => OrderedMap.empty.insert p .any := by
  rw [allowAny, List.foldlM_cons]
  cases FieldPath.ofText field <;> rfl

/-- A reported difference is allowed by its reported path exactly if that is legible or a single key
of blanks. -/
theorem allowed_by_text_iff {old new : Document} {d : Difference} (hd : d ∈ old.changes new) :
    (∃ rules, allowAny [d.path.text] = .ok rules ∧
      d ∈ (classify rules (old.changes new)).allowed) ↔
      d.path.Legible ∨ ∃ k, d.path = [.key k] ∧ ∀ c ∈ k.toList, Text.isBlank c = true := by
  rw [← FieldPath.ofText_text_isPrefix_iff, allowAny_singleton]
  constructor
  · rintro ⟨rules, hrules, hallowed⟩
    obtain ⟨p, hread, rfl⟩ := map_eq_ok.mp hrules
    exact ⟨p, hread, allows_single_any_iff.mp (List.mem_filter.mp hallowed).2⟩
  · rintro ⟨p, hread, habove⟩
    refine ⟨_, map_eq_ok.mpr ⟨p, hread, rfl⟩, ?_⟩
    exact List.mem_filter.mpr ⟨hd, allows_single_any_iff.mpr habove⟩

section Coverage

/-- What is covered in a year, and the bands of which. -/
def coverage (year band : String) : Document := .ofFields
  [("coverage", .mapping [("2020", .text year), ("bands", .sequence [.text band])])]

def coverageChanges : List Difference := (coverage "partial" "red").changes (coverage "full" "blue")

def yearChange : Difference :=
  ⟨[.key "coverage", .key "2020"], some (.text "partial"), some (.text "full")⟩

def bandChange : Difference :=
  ⟨[.key "coverage", .key "bands", .index 0], some (.text "red"), some (.text "blue")⟩

theorem coverageChanges_eq : coverageChanges = [yearChange, bandChange] := rfl

/-- The reported path of a band allows its change. -/
theorem bandChange_allowed_by_text : bandChange ∈ coverageChanges ∧
    ∃ rules, allowAny [bandChange.path.text] = .ok rules ∧
      bandChange ∈ (classify rules coverageChanges).allowed := by
  have hmem : bandChange ∈ coverageChanges := by
    rw [coverageChanges_eq]
    exact List.mem_cons_of_mem _ List.mem_cons_self
  have hlegible : bandChange.path.Legible := by
    refine ⟨by decide, ?_, nofun⟩
    rintro _ ⟨⟩ _ ⟨⟩
    rfl
  exact ⟨hmem, (allowed_by_text_iff hmem).mpr (.inl hlegible)⟩

/-- The reported path of a year does not, since the year is read as an index. -/
theorem yearChange_not_allowed_by_text : yearChange ∈ coverageChanges ∧
    yearChange.path.text = "coverage.2020" ∧
    ¬ ∃ rules, allowAny [yearChange.path.text] = .ok rules ∧
      yearChange ∈ (classify rules coverageChanges).allowed := by
  refine ⟨?_, rfl, ?_⟩
  · rw [coverageChanges_eq]
    exact List.mem_cons_self
  · rintro ⟨rules, hrules, hallowed⟩
    have hread : allowAny [yearChange.path.text] =
        .ok (OrderedMap.empty.insert [.key "coverage", .index 2020] .any) := rfl
    cases hread.symm.trans hrules
    have habove := allows_single_any_iff.mp (List.mem_filter.mp hallowed).2
    exact absurd habove (by decide)

end Coverage

end ChangeRules

end DatasetCatalog
