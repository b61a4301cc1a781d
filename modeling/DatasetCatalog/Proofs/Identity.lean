import DatasetCatalog.Identity
import DatasetCatalog.Proofs.Text.Digits

/-!
# Identities read back

An identity is read back from the text that it is written as.
-/

namespace DatasetCatalog.Identity

theorem ofHex?_hexChars (id : Identity) : ofHex? (Text.hexChars 32 id.bits.toNat) = some id := by
  obtain ⟨values, hvalues, hfold⟩ := Text.mapM_hexChars 32 (n := id.bits.toNat)
    (by simpa using id.bits.isLt)
  rw [ofHex?, if_pos (Text.length_hexChars _ _), hvalues, Option.map_some, hfold]
  simp

/-- Groups of the right lengths are put together again. -/
theorem unhyphenate?_hyphenate {widths : List Nat} {digits : List Char} (hne : widths ≠ [])
    (h : digits.length = widths.sum) :
    unhyphenate? widths (hyphenate widths digits) = some digits := by
  induction widths generalizing digits with
  | nil => exact (hne rfl).elim
  | cons width widths ih =>
      cases widths with
      | nil =>
          rw [hyphenate, unhyphenate?, if_pos (by simpa using h)]
      | cons next widths =>
          have hwidth : (digits.take width).length = width := by
            rw [List.length_take, h]
            simp
          have hrest : (digits.drop width).length = (next :: widths).sum := by
            rw [List.length_drop, h]
            simp
          rw [hyphenate, unhyphenate?, List.drop_left' hwidth, List.take_left' hwidth]
          · simp [ih (List.cons_ne_nil _ _) hrest]
          all_goals exact nofun

theorem length_hyphenate {widths : List Nat} {digits : List Char}
    (h : digits.length = widths.sum) :
    (hyphenate widths digits).length = digits.length + (widths.length - 1) := by
  induction widths generalizing digits with
  | nil => rfl
  | cons width widths ih =>
      cases widths with
      | nil => rfl
      | cons next widths =>
          have hrest : (digits.drop width).length = (next :: widths).sum := by
            rw [List.length_drop, h]
            simp
          rw [hyphenate, List.length_append, List.length_cons, ih hrest, List.length_take,
            List.length_drop]
          simp only [List.sum_cons, List.length_cons] at h ⊢
          omega
          all_goals exact nofun

theorem parse?_text (id : Identity) : parse? id.text = some id := by
  have hlength : (Text.hexChars 32 id.bits.toNat).length = groups.sum := Text.length_hexChars _ _
  have hchars : id.chars.length = 36 := by
    rw [chars, length_hyphenate hlength, hlength]
    rfl
  rw [parse?, text, String.toList_ofList]
  simp only [hchars]
  rw [ofHyphenated?, chars, unhyphenate?_hyphenate (by decide) hlength, Option.bind_some,
    ofHex?_hexChars]

end DatasetCatalog.Identity
