import DatasetCatalog.Text.Basic
import Mathlib.Data.List.DropRight

/-!
# What trimming leaves

Trimming drops blanks and nothing else, and what it leaves neither starts nor ends with one.
-/

namespace DatasetCatalog.Text

theorem not_isBlank_of_isDigit {c : Char} (h : c.isDigit = true) : isBlank c = false := by
  simp only [Char.isDigit, Bool.and_eq_true, decide_eq_true_eq] at h
  have hlow : 48 ≤ c.toNat := h.1
  have hhigh : c.toNat ≤ 57 := h.2
  simp only [isBlank, Bool.or_eq_false_iff, Bool.and_eq_false_iff, decide_eq_false_iff_not,
    beq_eq_false_iff_ne]
  omega

/-- Neither the first nor the last character is a blank. -/
structure Trimmed (cs : List Char) : Prop where
  first : ∀ c ∈ cs.head?, isBlank c = false
  last : ∀ c ∈ cs.getLast?, isBlank c = false

variable {cs : List Char} {c : Char}

theorem trimEnd_eq (cs : List Char) : trimEnd cs = cs.rdropWhile isBlank := rfl

theorem trimmed_trim (cs : List Char) : Trimmed (trim cs) where
  first c hc := by
    rw [trim, trimEnd_eq] at hc
    -- What is dropped at the end leaves the first character, if it leaves any.
    obtain ⟨dropped, hsplit⟩ := List.rdropWhile_prefix isBlank (trimStart cs)
    have hstart : (trimStart cs).head? = some c := by
      rw [← hsplit, List.head?_append, hc]
      rfl
    have hnot := List.head?_dropWhile_not isBlank cs
    rw [← trimStart, hstart] at hnot
    exact hnot
  last c hc := by
    rw [trim, trimEnd_eq] at hc
    obtain ⟨hne, rfl⟩ := List.mem_getLast?_eq_getLast hc
    exact Bool.eq_false_iff.mpr (List.rdropWhile_last_not isBlank (trimStart cs) hne)

theorem Trimmed.trim_eq (h : Trimmed cs) : trim cs = cs := by
  have hstart : trimStart cs = cs := by
    cases cs with
    | nil => rfl
    | cons c rest => exact List.dropWhile_cons_of_neg (by simp [h.first c rfl])
  rw [trim, hstart, trimEnd_eq, List.rdropWhile_eq_self_iff]
  intro hne
  rw [h.last _ (List.getLast?_eq_getLast_of_ne_nil hne)]
  exact Bool.false_ne_true

/-- Nothing but blanks is dropped. -/
theorem filter_trim (cs : List Char) :
    (trim cs).filter (fun c => !isBlank c) = cs.filter fun c => !isBlank c := by
  have hstart : ∀ cs : List Char,
      (cs.dropWhile isBlank).filter (fun c => !isBlank c) = cs.filter fun c => !isBlank c := by
    intro cs
    induction cs with
    | nil => rfl
    | cons c rest ih =>
        cases hc : isBlank c with
        | true => simp [hc, ih]
        | false => simp [hc]
  rw [trim, trimEnd, List.filter_reverse, hstart, List.filter_reverse, List.reverse_reverse,
    trimStart, hstart]

theorem trim_eq_nil_iff : trim cs = [] ↔ ∀ c ∈ cs, isBlank c = true := by
  have hfilter : trim cs = [] ↔ (trim cs).filter (fun c => !isBlank c) = [] := by
    constructor
    · intro h
      rw [h]
      rfl
    · intro h
      cases htrim : trim cs with
      | nil => rfl
      | cons c rest =>
          have hc : isBlank c = false := (trimmed_trim cs).first c (by rw [htrim]; rfl)
          simp [htrim, hc] at h
  rw [hfilter, filter_trim]
  simp

theorem count_trim (h : isBlank c = false) : (trim cs).count c = cs.count c := by
  rw [← List.count_filter (l := trim cs) (p := fun c => !isBlank c) (by simp [h]), filter_trim,
    List.count_filter (by simp [h])]

end DatasetCatalog.Text
