import DatasetCatalog.Document.Embedding
import Mathlib.Data.List.Perm.Subperm

/-!
# Agreement of values, step by step

Two mappings have the same value if they agree at every key, two sequences if they agree at every
index. `sameValue_iff_step?` says so for both kinds at once, and `agree_at?` carries it down any
path. Key order never matters, but distinct keys do: the comparison counts fields and then looks
only from the left.
-/

namespace DatasetCatalog

namespace Fields

theorem mem_iff_find? {fields : Fields} (h : fields.keys.Nodup) {k : String} {v : Value} :
    (k, v) ∈ fields ↔ fields.find? k = some v := by
  refine ⟨fun hv => ?_, mem_of_find?⟩
  induction fields with
  | nil => cases hv
  | cons f rest ih =>
      obtain ⟨l, w⟩ := f
      obtain ⟨hl, hrest⟩ := List.nodup_cons.mp h
      rw [find?_cons]
      rcases List.mem_cons.mp hv with same | hv
      · cases same
        rw [if_pos rfl]
      · have hne : l ≠ k := by
          intro he
          subst he
          exact hl (List.mem_map.mpr ⟨(l, v), hv, rfl⟩)
        rw [if_neg hne]
        exact ih hrest hv

theorem mem_keys_iff {fields : Fields} {k : String} :
    k ∈ fields.keys ↔ (fields.find? k).isSome := by
  rw [← Option.ne_none_iff_isSome, Ne, find?_eq_none_iff, not_not]

theorem find?_erase {fields : Fields} (h : fields.keys.Nodup) (k l : String) :
    (fields.erase k).find? l = if l = k then none else fields.find? l := by
  induction fields with
  | nil => simp [erase]
  | cons f rest ih =>
      obtain ⟨m, w⟩ := f
      obtain ⟨hm, hrest⟩ := List.nodup_cons.mp h
      rw [erase]
      by_cases hmk : m = k
      · subst hmk
        rw [if_pos rfl, find?_cons]
        by_cases hlm : l = m
        · subst hlm
          rw [if_pos rfl, find?_eq_none_iff.mpr hm]
        · rw [if_neg hlm, if_neg (Ne.symm hlm)]
      · rw [if_neg hmk, find?_cons, find?_cons, ih hrest]
        by_cases hml : m = l
        · subst hml
          rw [if_pos rfl, if_neg hmk, if_pos rfl]
        · rw [if_neg hml, if_neg hml]

end Fields

namespace Value

/-- Both absent, or both there with the same value. -/
def Agree (mode : CaseMode) : Option Value → Option Value → Prop
  | none, none => True
  | some v, some w => v.sameValue mode w = true
  | _, _ => False

instance (mode : CaseMode) (a b : Option Value) : Decidable (Agree mode a b) :=
  match a, b with
  | none, none => isTrue trivial
  | some v, some w => inferInstanceAs (Decidable (v.sameValue mode w = true))
  | none, some _ => isFalse id
  | some _, none => isFalse id

/-- Both mappings or both sequences: the values that are compared part by part. -/
def SameContainer : Value → Value → Prop
  | .mapping _, .mapping _ => True
  | .sequence _, .sequence _ => True
  | _, _ => False

variable {mode : CaseMode}

@[simp] theorem agree_none_none : Agree mode none none := trivial

@[simp] theorem agree_some_some {v w : Value} :
    Agree mode (some v) (some w) ↔ v.sameValue mode w = true := Iff.rfl

@[simp] theorem not_agree_none_some {w : Value} : ¬ Agree mode none (some w) := id

@[simp] theorem not_agree_some_none {v : Value} : ¬ Agree mode (some v) none := id

theorem Agree.isSome_eq {a b : Option Value} (h : Agree mode a b) : a.isSome = b.isSome := by
  cases a <;> cases b
  · rfl
  · exact h.elim
  · exact h.elim
  · rfl

theorem sameItemsBy_iff {numbers : Number → Number → Bool} {texts : String → String → Bool}
    {xs ys : List Value} : sameItemsBy numbers texts xs ys = true ↔
      List.Forall₂ (fun x y => sameBy numbers texts x y = true) xs ys := by
  induction xs generalizing ys with
  | nil => cases ys <;> simp [sameItemsBy]
  | cons x xs ih => cases ys <;> simp [sameItemsBy, ih]

theorem fieldsWithinBy_iff {numbers : Number → Number → Bool} {texts : String → String → Bool}
    {xs ys : Fields} : fieldsWithinBy numbers texts xs ys = true ↔
      ∀ f ∈ xs, ∃ y, ys.find? f.1 = some y ∧ sameBy numbers texts f.2 y = true := by
  induction xs with
  | nil => simp [fieldsWithinBy]
  | cons f xs ih =>
      obtain ⟨k, x⟩ := f
      simp only [fieldsWithinBy, Bool.and_eq_true, ih, List.forall_mem_cons]
      cases ys.find? k <;> simp

theorem sameValue_sequence_iff {xs ys : List Value} :
    (sequence xs).sameValue mode (sequence ys) = true ↔ ∀ i : Nat, Agree mode xs[i]? ys[i]? := by
  rw [sameValue, sameBy, sameItemsBy_iff]
  induction xs generalizing ys with
  | nil =>
      cases ys with
      | nil => simp
      | cons y ys => exact ⟨fun h => (nomatch h), fun h => (h 0).elim⟩
  | cons x xs ih =>
      cases ys with
      | nil => exact ⟨fun h => (nomatch h), fun h => (h 0).elim⟩
      | cons y ys =>
          rw [List.forall₂_cons, ih]
          constructor
          · rintro ⟨hx, hxs⟩ (_ | i)
            · exact hx
            · exact hxs i
          · intro h
            exact ⟨h 0, fun i => h (i + 1)⟩

/-- Equally many fields, each found on the right, leave no key over on the right. -/
theorem sameValue_mapping_iff {xs ys : Fields} (hx : xs.keys.Nodup) (hy : ys.keys.Nodup) :
    (mapping xs).sameValue mode (mapping ys) = true ↔
      ∀ k, Agree mode (xs.find? k) (ys.find? k) := by
  rw [sameValue, sameBy, Bool.and_eq_true, beq_iff_eq, fieldsWithinBy_iff]
  constructor
  · rintro ⟨hlength, hwithin⟩ k
    have hsubset : xs.keys ⊆ ys.keys := by
      intro l hl
      obtain ⟨f, hf, rfl⟩ := List.mem_map.mp hl
      obtain ⟨y, hfind, -⟩ := hwithin f hf
      rw [Fields.mem_keys_iff, hfind]
      rfl
    have hperm : xs.keys.Perm ys.keys := by
      have hlengths : ys.keys.length = xs.keys.length := by
        rw [Fields.keys, Fields.keys, List.length_map, List.length_map, hlength]
      exact (List.subperm_of_subset hx hsubset).perm_of_length_le (Nat.le_of_eq hlengths)
    cases hv : xs.find? k with
    | none =>
        have hk : k ∉ ys.keys := fun hk => Fields.find?_eq_none_iff.mp hv (hperm.mem_iff.mpr hk)
        rw [Fields.find?_eq_none_iff.mpr hk]
        trivial
    | some v =>
        obtain ⟨y, hfind, hsame⟩ := hwithin (k, v) (Fields.mem_of_find? hv)
        rw [hfind]
        exact hsame
  · intro h
    have hperm : xs.keys.Perm ys.keys := by
      refine (List.perm_ext_iff_of_nodup hx hy).mpr fun k => ?_
      rw [Fields.mem_keys_iff, Fields.mem_keys_iff, (h k).isSome_eq]
    refine ⟨by simpa [Fields.keys] using hperm.length_eq, ?_⟩
    rintro ⟨k, x⟩ hf
    have hk := h k
    rw [(Fields.mem_iff_find? hx).mp hf] at hk
    cases hy : ys.find? k with
    | none => rw [hy] at hk; exact hk.elim
    | some y => rw [hy] at hk; exact ⟨y, rfl, hk⟩

theorem WellFormed.keys_nodup {fields : Fields} (h : (mapping fields).WellFormed) :
    fields.keys.Nodup :=
  (Fields.wellFormed_iff.mp h).1

/-- Containers of one kind have the same value exactly when they agree one step down. -/
theorem sameValue_iff_step? {l r : Value} (hl : l.WellFormed) (hr : r.WellFormed)
    (hc : SameContainer l r) :
    l.sameValue mode r = true ↔ ∀ s, Agree mode (l.step? s) (r.step? s) := by
  cases l <;> cases r <;> simp only [SameContainer] at hc
  case sequence.sequence xs ys =>
    rw [sameValue_sequence_iff]
    constructor
    · rintro h (k | i)
      · trivial
      · exact h i
    · exact fun h i => h (.index i)
  case mapping.mapping xs ys =>
    rw [sameValue_mapping_iff hl.keys_nodup hr.keys_nodup]
    constructor
    · rintro h (k | i)
      · exact h k
      · trivial
    · exact fun h k => h (.key k)

theorem sameContainer_or_step?_eq_none {l r : Value} (h : l.sameValue mode r = true) :
    SameContainer l r ∨ ∀ s, l.step? s = none ∧ r.step? s = none := by
  cases l <;> cases r <;> simp [sameValue, sameBy] at h <;> simp [SameContainer, step?]

theorem agree_step? {l r : Value} (hl : l.WellFormed) (hr : r.WellFormed)
    (h : l.sameValue mode r = true) (s : Step) : Agree mode (l.step? s) (r.step? s) := by
  rcases sameContainer_or_step?_eq_none h with hc | hnone
  · exact (sameValue_iff_step? hl hr hc).mp h s
  · rw [(hnone s).1, (hnone s).2]
    trivial

/-- Values that are the same agree at every path. -/
theorem agree_at? {l r : Value} (hl : l.WellFormed) (hr : r.WellFormed)
    (h : l.sameValue mode r = true) (q : FieldPath) : Agree mode (l.at? q) (r.at? q) := by
  induction q generalizing l r with
  | nil => exact h
  | cons s rest ih =>
      have hs := agree_step? hl hr h s
      rw [at?_cons, at?_cons]
      cases hv : l.step? s <;> cases hw : r.step? s <;> rw [hv, hw] at hs
      case none.none => trivial
      case some.some v w => exact ih (hl.step? hv) (hr.step? hw) hs
      all_goals exact hs.elim

theorem sameBy_number_refl (n : Number) : n.sameValue n = true := by
  cases n <;> simp [Number.sameValue, Binary64.sameValue]

theorem sameText_refl (mode : CaseMode) (s : String) : mode.sameText s s = true := by
  cases mode <;> simp [CaseMode.sameText]

/-- A document value is the same as itself; a repeated key could spoil this. -/
theorem sameValue_refl {v : Value} (hv : v.WellFormed) : v.sameValue mode v = true := by
  induction hn : v.size using Nat.strongRecOn generalizing v with
  | ind n ih =>
      have hstep : ∀ s, Agree mode (v.step? s) (v.step? s) := by
        intro s
        cases hw : v.step? s with
        | none => trivial
        | some w => exact ih w.size (hn ▸ size_lt_of_step? hw) (hv.step? hw) rfl
      cases v with
      | null => rfl
      | boolean b => simp [sameValue, sameBy]
      | number m => exact sameBy_number_refl m
      | text s => exact sameText_refl mode s
      | sequence items => exact (sameValue_iff_step? hv hv trivial).mpr hstep
      | mapping fields => exact (sameValue_iff_step? hv hv trivial).mpr hstep

end Value

end DatasetCatalog
