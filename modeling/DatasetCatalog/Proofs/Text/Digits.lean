import DatasetCatalog.Text.Basic
import Mathlib.Data.Nat.Digits.Defs

/-!
# Digits read back

Numbers written in decimal or hexadecimal digits, at full length or at a fixed width, are read back
by the values of their digits.
-/

namespace DatasetCatalog.Text

theorem decimalValue_eq (digits : List Char) :
    decimalValue digits = Nat.ofDigitChars 10 digits 0 := by
  rw [decimalValue, Nat.ofDigitChars_eq_foldl]
  simp only [Nat.mul_comm]

theorem decimalValue_concat (digits : List Char) {d : Nat} (hd : d < 10) :
    decimalValue (digits ++ [Nat.digitChar d]) = decimalValue digits * 10 + d := by
  rw [decimalValue, List.foldl_append]
  exact congrArg _ (Nat.toNat_digitChar_sub_48_of_lt_ten hd)

/-- A number other than zero is written without leading zeros. -/
theorem head?_toDigits {n : Nat} (hn : n ≠ 0) : (Nat.toDigits 10 n).head? ≠ some '0' := by
  have hdigit : ∀ d < 10, d ≠ 0 → Nat.digitChar d ≠ '0' := by decide
  induction n using Nat.strong_induction_on with
  | h n ih =>
      rw [Nat.toDigits_eq_if (by decide)]
      split
      next hlt => exact fun heq => hdigit n hlt hn (Option.some.inj heq)
      next hge =>
          have hhead := ih (n / 10) (by omega) (by omega)
          obtain ⟨c, rest, hcons⟩ :=
            List.exists_cons_of_ne_nil (Nat.toDigits_ne_nil (b := 10) (n := n / 10))
          rw [hcons] at hhead ⊢
          exact hhead

@[simp] theorem length_decimalChars (width n : Nat) : (decimalChars width n).length = width := by
  induction width generalizing n with
  | zero => rfl
  | succ width ih => rw [decimalChars, List.length_append, ih]; rfl

theorem isDigit_of_mem_decimalChars {width n : Nat} {c : Char} (h : c ∈ decimalChars width n) :
    c.isDigit = true := by
  induction width generalizing n with
  | zero => cases h
  | succ width ih =>
      rcases List.mem_append.mp h with h | h
      · exact ih h
      · rw [List.mem_singleton.mp h, Nat.isDigit_digitChar]
        exact decide_eq_true (Nat.mod_lt n (by decide))

theorem decimalValue_decimalChars {width n : Nat} (h : n < 10 ^ width) :
    decimalValue (decimalChars width n) = n := by
  induction width generalizing n with
  | zero =>
      rw [Nat.pow_zero, Nat.lt_one_iff] at h
      rw [h]
      rfl
  | succ width ih =>
      rw [Nat.pow_succ] at h
      rw [decimalChars, decimalValue_concat _ (Nat.mod_lt n (by decide)),
        ih (Nat.div_lt_of_lt_mul (Nat.mul_comm _ _ ▸ h))]
      omega

/-- Reading digits stops where they end. -/
theorem takeWhile_isDigit {digits : List Char} (hdigits : ∀ c ∈ digits, c.isDigit = true)
    (rest : List Char) (hrest : ∀ c ∈ rest.head?, c.isDigit = false) :
    (digits ++ rest).takeWhile Char.isDigit = digits ∧
      (digits ++ rest).dropWhile Char.isDigit = rest := by
  rw [List.takeWhile_append_of_pos hdigits, List.dropWhile_append_of_pos hdigits]
  cases rest with
  | nil => simp
  | cons c rest =>
      have hc := hrest c rfl
      rw [List.takeWhile_cons_of_neg (by simp [hc]), List.dropWhile_cons_of_neg (by simp [hc]),
        List.append_nil]
      exact ⟨rfl, rfl⟩

theorem hexValue?_digitChar {d : Nat} (hd : d < 16) : hexValue? (Nat.digitChar d) = some d := by
  revert d
  decide

@[simp] theorem length_hexChars (width n : Nat) : (hexChars width n).length = width := by
  induction width generalizing n with
  | zero => rfl
  | succ width ih => rw [hexChars, List.length_append, ih]; rfl

/-- The values of the digits write the number again. -/
theorem mapM_hexChars (width : Nat) {n : Nat} (h : n < 16 ^ width) :
    ∃ values, (hexChars width n).mapM hexValue? = some values ∧
      values.foldl (fun n d => n * 16 + d) 0 = n := by
  induction width generalizing n with
  | zero =>
      rw [Nat.pow_zero, Nat.lt_one_iff] at h
      exact ⟨[], rfl, h.symm⟩
  | succ width ih =>
      rw [Nat.pow_succ] at h
      obtain ⟨values, hvalues, hfold⟩ := ih (Nat.div_lt_of_lt_mul (Nat.mul_comm _ _ ▸ h))
      refine ⟨values ++ [n % 16], ?_, ?_⟩
      · rw [hexChars, List.mapM_append, hvalues]
        simp [hexValue?_digitChar (Nat.mod_lt n (show 0 < 16 by decide))]
      · rw [List.foldl_append, hfold]
        simp only [List.foldl_cons, List.foldl_nil]
        omega

end DatasetCatalog.Text
