import DatasetCatalog.Proofs.Document.Signature
import DatasetCatalog.Proofs.Value.Correspondence

/-!
# Containment as a difference that only adds

Containment and differences are two recursions over a pair of values. They part where the two values
are not both mappings: a signature then has to be the same, while the differences say in detail why it
is not, none of them by adding a field to a mapping. So a signature without nulls is contained in a
document exactly when the document adds fields to it and does nothing else.
-/

namespace DatasetCatalog

/-- A field that the left document lacks, outside the sequences of both. -/
def Difference.AddsField (d : Difference) : Prop :=
  d.left = none ∧ ∃ keys : List String, d.path = .ofKeys keys

theorem Difference.addsField_under {k : String} {d : Difference} :
    (d.under (.key k)).AddsField ↔ d.AddsField := by
  refine and_congr_right fun _ => ⟨?_, ?_⟩
  · rintro ⟨_ | ⟨l, keys⟩, h⟩
    · cases h
    · exact ⟨keys, (List.cons_eq_cons.mp h).2⟩
  · rintro ⟨keys, h⟩
    exact ⟨k :: keys, by rw [under_path, h]; rfl⟩

namespace Value

variable {mode : CaseMode}

/-- No null at a path of keys; sequences may hold nulls. -/
def NullFree (v : Value) : Prop := ∀ keys : List String, v.at? (.ofKeys keys) ≠ some .null

theorem nullFree_of_not_mapping {v : Value} (hmapping : v.isMapping = false) (hnull : v ≠ .null) :
    v.NullFree := by
  rintro (_ | ⟨k, keys⟩) h
  · exact hnull (Option.some.inj h)
  · cases v
    case mapping => cases hmapping
    all_goals cases h

theorem nullFree_mapping {fields : Fields} (h : ∀ f ∈ fields, f.2.NullFree) :
    (mapping fields).NullFree := by
  rintro (_ | ⟨k, keys⟩) hnull
  · cases hnull
  · obtain ⟨w, hw, hnull⟩ := Option.bind_eq_some_iff.mp hnull
    exact h (k, w) (Fields.mem_of_find? hw) keys hnull

theorem NullFree.find? {fields : Fields} (h : (mapping fields).NullFree) {k : String} {w : Value}
    (hw : fields.find? k = some w) : w.NullFree :=
  fun keys hnull => h (k :: keys) (Option.bind_eq_some_iff.mpr ⟨w, hw, hnull⟩)

/-- Only of two mappings can one have fields that the other lacks. -/
theorem not_addsField_of_mem {l r : Value} (hl : l.WellFormed) (hr : r.WellFormed)
    (hmapping : l.isMapping = false ∨ r.isMapping = false) {d : Difference}
    (hd : d ∈ differences l r) : ¬ d.AddsField := by
  rintro ⟨hnone, keys, hkeys⟩
  by_cases hc : SameContainer l r
  · cases l <;> cases r <;> simp only [SameContainer] at hc
    case sequence.sequence =>
      obtain ⟨i, rest, hpath⟩ := path_of_mem_differences_sequence hl hr hd
      rw [hpath] at hkeys
      cases keys <;> cases hkeys
    case mapping.mapping => cases hmapping <;> contradiction
  · have hdiffer : l.sameValue .sensitive r = false := by
      by_contra hsame
      rw [differences_of_sameValue (Bool.not_eq_false _ ▸ hsame)] at hd
      cases hd
    rw [differences_of_not_sameContainer hdiffer hc] at hd
    cases List.mem_singleton.mp hd
    cases hnone

/-- Unless both are mappings, what is not null is contained only in what is the same. -/
theorem within_iff_sameValue_of_ne_null {s v : Value} (hnull : s ≠ .null)
    (hmapping : s.isMapping = false ∨ v.isMapping = false) :
    s.within mode v = true ↔ v.sameValue mode s = true := by
  cases s <;> cases v <;> simp_all [within, isMapping, sameValue, sameBy]

/-- Unless both are mappings, either nothing differs or something does that adds no field. -/
theorem forall_addsField_iff_sameValue {s v : Value} (hs : s.WellFormed) (hv : v.WellFormed)
    (hmapping : s.isMapping = false ∨ v.isMapping = false) :
    (∀ d ∈ differences s v, d.AddsField) ↔ v.sameValue .sensitive s = true := by
  have hempty : (∀ d ∈ differences s v, d.AddsField) ↔ differences s v = [] := by
    rw [List.eq_nil_iff_forall_not_mem]
    exact forall_congr' fun d => imp_congr_right fun hd =>
      iff_of_false (not_addsField_of_mem hs hv hmapping hd) id
  rw [hempty, differences_eq_nil_iff hs hv]
  exact ⟨sameValue_symm hs hv, sameValue_symm hv hs⟩

/-- Behind one key only fields are added if the left side has nothing there, or has a value that the
right side replaces by one that only adds fields. -/
theorem forall_beneath_addsField_iff {k : String} {a b : Option Value} :
    (∀ d ∈ beneath (.key k) a b, d.AddsField) ↔
      ∀ w, a = some w → ∃ x, b = some x ∧ ∀ d ∈ differences w x, d.AddsField := by
  cases a with
  | none =>
      refine iff_of_true (fun d hd => ?_) nofun
      cases b with
      | none => cases hd
      | some x =>
          cases List.mem_singleton.mp hd
          exact ⟨rfl, [k], rfl⟩
  | some w =>
      cases b with
      | none =>
          refine iff_of_false (fun h => ?_) fun h => ?_
          · cases (h _ (List.mem_singleton_self _)).1
          · obtain ⟨x, hx, -⟩ := h w rfl
            cases hx
      | some x => simp [beneath, Difference.addsField_under]

/-- As containment does, adding fields to a mapping goes key by key. -/
theorem forall_addsField_mapping_iff {wanted fields : Fields} (hwanted : (mapping wanted).WellFormed)
    (hfields : (mapping fields).WellFormed) :
    (∀ d ∈ differences (mapping wanted) (mapping fields), d.AddsField) ↔
      ∀ k w, Fields.find? wanted k = some w →
        ∃ x, Fields.find? fields k = some x ∧ ∀ d ∈ differences w x, d.AddsField := by
  have hkeys : (∀ d ∈ differences (mapping wanted) (mapping fields), d.AddsField) ↔
      ∀ k, ∀ d ∈ beneath (.key k) (Fields.find? wanted k) (Fields.find? fields k), d.AddsField := by
    simp only [mem_differences hwanted hfields trivial]
    constructor
    · exact fun h k d hd => h d ⟨.key k, hd⟩
    · rintro h d ⟨k | i, hd⟩
      · exact h k d hd
      · cases hd
  simp only [hkeys, forall_beneath_addsField_iff]

/-- A signature without nulls is contained exactly in what differs from it by added fields. -/
theorem within_iff_addsFields {s v : Value} (hs : s.WellFormed) (hv : v.WellFormed)
    (hnull : s.NullFree) :
    s.within .sensitive v = true ↔ ∀ d ∈ differences s v, d.AddsField := by
  induction hn : s.size using Nat.strongRecOn generalizing s v with
  | ind n ih =>
      have hother (hmapping : s.isMapping = false ∨ v.isMapping = false) :
          s.within .sensitive v = true ↔ ∀ d ∈ differences s v, d.AddsField := by
        rw [forall_addsField_iff_sameValue hs hv hmapping]
        exact within_iff_sameValue_of_ne_null (fun h => hnull [] (congrArg some h)) hmapping
      cases s with
      | mapping wanted =>
          cases v with
          | mapping fields =>
              have hbehind : ∀ k w, Fields.find? wanted k = some w → ∀ x,
                  Fields.find? fields k = some x →
                    (w.within .sensitive x = true ↔ ∀ d ∈ differences w x, d.AddsField) := by
                intro k w hw x hx
                exact ih w.size (hn ▸ size_lt_of_mem_fields (Fields.mem_of_find? hw))
                  (hs.step? (s := .key k) hw) (hv.step? (s := .key k) hx) (hnull.find? hw) rfl
              rw [forall_addsField_mapping_iff hs hv, within_mapping_iff hs.keys_nodup]
              constructor
              · rintro ⟨_, ⟨⟩, h⟩ k w hw
                obtain ⟨x, hx, hwithin⟩ := h k w hw
                exact ⟨x, hx, (hbehind k w hw x hx).mp hwithin⟩
              · refine fun h => ⟨fields, rfl, fun k w hw => ?_⟩
                obtain ⟨x, hx, hadds⟩ := h k w hw
                exact ⟨x, hx, (hbehind k w hw x hx).mpr hadds⟩
          | null | boolean | number | text | sequence => exact hother (.inr rfl)
      | null | boolean | number | text | sequence => exact hother (.inl rfl)

end Value

namespace Document

/-- The matcher and the comparison of documents agree: a signature with no null outside its sequences
is contained in a document exactly when the document differs from it by fields that it adds, none of
them within a sequence. -/
theorem contains_iff_addsFields {d s : Document}
    (hnull : ∀ keys : List String, s.get? (.ofKeys keys) ≠ some .null) :
    d.contains .sensitive s = true ↔
      ∀ x ∈ s.changes d, x.left = none ∧ ∃ keys : List String, x.path = .ofKeys keys := by
  have hvalue : s.value.NullFree := by
    rintro (_ | ⟨k, keys⟩)
    · nofun
    · exact hnull (k :: keys)
  simp only [contains_eq_within, mem_changes]
  exact Value.within_iff_addsFields s.wellFormed_value d.wellFormed_value hvalue

section OrbitScene

theorem nullFree_platformSignature : platformSignature.value.NullFree := by
  apply Value.nullFree_mapping
  intro f hf
  rcases List.mem_cons.mp hf with rfl | hf
  · apply Value.nullFree_mapping
    intro f hf
    cases List.mem_singleton.mp hf
    exact Value.nullFree_of_not_mapping rfl nofun
  · cases List.mem_singleton.mp hf
    exact Value.nullFree_of_not_mapping rfl nofun

/-- The scene adds an orbit to the signature, and the null among the bands is no matter. -/
theorem orbitScene_adds_orbit :
    (∀ keys : List String, platformSignature.get? (.ofKeys keys) ≠ some .null) ∧
      ∀ x ∈ platformSignature.changes (orbitScene [("orbit", .null)]),
        x.left = none ∧ ∃ keys : List String, x.path = .ofKeys keys := by
  have hnull : ∀ keys : List String, platformSignature.get? (.ofKeys keys) ≠ some .null := by
    rintro (_ | ⟨k, keys⟩)
    · nofun
    · exact nullFree_platformSignature (k :: keys)
  exact ⟨hnull, (contains_iff_addsFields hnull).mp rfl⟩

/-- Where the signature has a null, a mapping that takes its place is contained and still differs. -/
example : (orbitScene []).contains .sensitive looseSignature = true ∧
    (looseSignature.changes (orbitScene [])).any (·.left.isSome) = true := ⟨rfl, rfl⟩

end OrbitScene

end Document

end DatasetCatalog
