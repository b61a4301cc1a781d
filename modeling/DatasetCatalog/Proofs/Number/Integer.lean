import DatasetCatalog.Number.Basic
import Mathlib.Tactic.Ring

/-!
# Integers among the binary64 numbers

A natural number below `2 ^ 53` is a binary64 number itself, and no other integer is rounded to it:
its exponent is at most zero, and that of every larger one is positive. `Number.sameValue` is
transitive only as far as this goes, since of two integers that a binary64 number equals, each may
be the one that was rounded.
-/

namespace DatasetCatalog

namespace Binary64

/-- Measured in units of `2 ^ (log2 n - j)` a natural number has `j + 1` bits. -/
theorem inUnits_log2_bounds {n : Nat} (hn : n ≠ 0) (j : Nat) :
    2 ^ j ≤ (inUnits n 1 ((n.log2 : Int) - j)).1 / (inUnits n 1 ((n.log2 : Int) - j)).2 ∧
      (inUnits n 1 ((n.log2 : Int) - j)).1 / (inUnits n 1 ((n.log2 : Int) - j)).2 < 2 ^ (j + 1) := by
  have hle : 2 ^ n.log2 ≤ n := Nat.log2_self_le hn
  have hlt : n < 2 ^ (n.log2 + 1) := Nat.lt_log2_self
  by_cases hj : j ≤ n.log2
  · obtain ⟨k, hk⟩ := Nat.exists_eq_add_of_le hj
    have hexponent : (n.log2 : Int) - j = (k : Int) := by omega
    rw [hexponent, inUnits, if_pos (Int.natCast_nonneg k), Int.toNat_natCast, Nat.pow_eq,
      Nat.one_mul]
    rw [hk] at hle hlt
    refine ⟨?_, ?_⟩
    · rw [Nat.le_div_iff_mul_le (Nat.two_pow_pos k), ← Nat.pow_add]
      exact hle
    · rw [Nat.div_lt_iff_lt_mul (Nat.two_pow_pos k), ← Nat.pow_add]
      rwa [show j + 1 + k = j + k + 1 by omega]
  · obtain ⟨k, hk⟩ := Nat.exists_eq_add_of_lt (Nat.lt_of_not_le hj)
    have hexponent : (-((n.log2 : Int) - j)).toNat = k + 1 := by omega
    rw [inUnits, if_neg (by omega), hexponent, Nat.pow_eq, Nat.div_one]
    rw [hk, show n.log2 + k + 1 = n.log2 + (k + 1) by omega]
    refine ⟨?_, ?_⟩
    · rw [Nat.pow_add]
      exact Nat.mul_le_mul_right _ hle
    · rw [show n.log2 + (k + 1) + 1 = n.log2 + 1 + (k + 1) by omega, Nat.pow_add 2 (n.log2 + 1)]
      exact Nat.mul_lt_mul_of_pos_right hlt (Nat.two_pow_pos (k + 1))

/-- The search for the exponent succeeds at its second try. -/
theorem fitExponent_natural {n : Nat} (hn : n ≠ 0) :
    fitExponent n 1 3 (startExponent n 1) = (n.log2 : Int) - 52 := by
  have hstart : startExponent n 1 = (n.log2 : Int) - (53 : Nat) := by
    rw [startExponent, show Nat.log2 1 = 0 from rfl]
    omega
  have hnext : (n.log2 : Int) - (53 : Nat) + 1 = (n.log2 : Int) - (52 : Nat) := by omega
  have hhigh := (inUnits_log2_bounds hn 53).1
  have hlow := (inUnits_log2_bounds hn 52).2
  rw [hstart, fitExponent]
  dsimp only
  rw [Nat.pow_eq, if_neg (Nat.not_lt.mpr hhigh), hnext, fitExponent]
  dsimp only
  rw [Nat.pow_eq, if_pos hlow]
  rfl

theorem roundHalfEven_one (n : Nat) : roundHalfEven n 1 = n := by
  simp [roundHalfEven, Nat.mod_one]

/-- Below `2 ^ 53` nothing is rounded. -/
theorem nearest?_of_lt {n : Nat} (hn : n ≠ 0) (hlt : n < 2 ^ 53) (negative : Bool) :
    ∃ h, nearest? negative n 1 =
      some ⟨negative, n * 2 ^ (52 - n.log2), (n.log2 : Int) - 52, h⟩ := by
  have hlog : n.log2 < 53 := (Nat.log2_lt hn).mpr hlt
  have hunits : inUnits n 1 ((n.log2 : Int) - 52) = (n * 2 ^ (52 - n.log2), 1) := by
    by_cases htop : n.log2 = 52
    · rw [inUnits, if_pos (by omega), htop]
      exact congrArg (·, 1) (Nat.mul_one n).symm
    · have hexponent : (-((n.log2 : Int) - 52)).toNat = 52 - n.log2 := by omega
      rw [inUnits, if_neg (by omega), hexponent, Nat.pow_eq]
  have hbounds := inUnits_log2_bounds hn 52
  rw [show ((52 : Nat) : Int) = 52 from rfl, hunits, Nat.div_one] at hbounds
  have hcanonical : Canonical (n * 2 ^ (52 - n.log2)) ((n.log2 : Int) - 52) := by
    simp only [Canonical, Nat.pow_eq]
    omega
  refine ⟨hcanonical, ?_⟩
  rw [nearest?, if_neg hn]
  dsimp only
  rw [fitExponent_natural hn, hunits]
  dsimp only
  rw [roundHalfEven_one, Nat.pow_eq, if_neg (by omega)]
  dsimp only
  rw [dif_pos hcanonical]

theorem roundHalfEven_bounds (num den : Nat) :
    num / den ≤ roundHalfEven num den ∧ roundHalfEven num den ≤ num / den + 1 := by
  simp only [roundHalfEven]
  split
  · omega
  · split
    · omega
    · split <;> omega

/-- From `2 ^ 53` on the exponent is positive, and the number is a multiple of the unit. -/
theorem nearest?_of_ge {n : Nat} (hge : 2 ^ 53 ≤ n) (hlt : n < 2 ^ 65) (negative : Bool) :
    ∃ x, nearest? negative n 1 = some x ∧ x.negative = negative ∧ 0 < x.exponent ∧
      x.significand * 2 ^ x.exponent.toNat =
        roundHalfEven n (2 ^ (n.log2 - 52)) * 2 ^ (n.log2 - 52) := by
  have hn : n ≠ 0 := by omega
  have hlow : 53 ≤ n.log2 := (Nat.le_log2 hn).mpr hge
  have hhigh : n.log2 < 65 := (Nat.log2_lt hn).mpr hlt
  have hunit : (n.log2 : Int) - 52 = (n.log2 - 52 : Nat) := by omega
  have hunits : inUnits n 1 ((n.log2 : Int) - 52) = (n, 2 ^ (n.log2 - 52)) := by
    rw [hunit, inUnits, if_pos (Int.natCast_nonneg _), Int.toNat_natCast, Nat.pow_eq, Nat.one_mul]
  have hquotient := inUnits_log2_bounds hn 52
  rw [show ((52 : Nat) : Int) = 52 from rfl, hunits] at hquotient
  have hrounded := roundHalfEven_bounds n (2 ^ (n.log2 - 52))
  rw [nearest?, if_neg hn]
  dsimp only at hquotient ⊢
  rw [fitExponent_natural hn, hunits]
  split
  next hfull =>
    -- Rounding up has made the significand too long by one bit.
    have hcanonical : Canonical (Nat.pow 2 52) ((n.log2 : Int) - 52 + 1) := by
      simp only [Canonical, Nat.pow_eq]
      omega
    refine ⟨⟨negative, _, _, hcanonical⟩, ?_, rfl, ?_, ?_⟩
    · dsimp only
      rw [dif_pos hcanonical]
    · dsimp only
      omega
    · have hexponent : ((n.log2 : Int) - 52 + 1).toNat = n.log2 - 52 + 1 := by omega
      dsimp only at hfull ⊢
      rw [hfull, hexponent, Nat.pow_succ, Nat.pow_eq, Nat.pow_eq]
      ring
  next hrest =>
    have hcanonical : Canonical (roundHalfEven n (2 ^ (n.log2 - 52))) ((n.log2 : Int) - 52) := by
      simp only [Canonical, Nat.pow_eq] at hrest ⊢
      omega
    refine ⟨⟨negative, _, _, hcanonical⟩, ?_, rfl, ?_, ?_⟩
    · dsimp only
      rw [dif_pos hcanonical]
    · dsimp only
      omega
    · dsimp only
      rw [hunit, Int.toNat_natCast]

theorem isZero_of_exponent_pos {x : Binary64} (h : 0 < x.exponent) : x.isZero = false := by
  have hcanonical := x.canonical
  simp only [Canonical, Nat.pow_eq] at hcanonical
  simp only [isZero, beq_eq_false_iff_ne]
  omega

theorem sameValue_symm {x y : Binary64} (h : x.sameValue y = true) : y.sameValue x = true := by
  simp only [sameValue, Bool.or_eq_true, Bool.and_eq_true, beq_iff_eq] at h ⊢
  rcases h with ⟨hx, hy⟩ | rfl
  · exact .inl ⟨hy, hx⟩
  · exact .inr rfl

theorem sameValue_trans {x y z : Binary64} (hxy : x.sameValue y = true)
    (hyz : y.sameValue z = true) : x.sameValue z = true := by
  simp only [sameValue, Bool.or_eq_true, Bool.and_eq_true, beq_iff_eq] at hxy hyz ⊢
  rcases hxy with ⟨hx, hy⟩ | rfl
  · rcases hyz with ⟨-, hz⟩ | rfl
    · exact .inl ⟨hx, hz⟩
    · exact .inl ⟨hx, hy⟩
  · exact hyz

end Binary64

namespace Number

/-- No other integer is rounded to the same binary64 number. -/
def Exact : Number → Prop
  | .integer n _ => n.natAbs < 2 ^ 53
  | .float _ => True

theorem sameValue_symm {a b : Number} (h : a.sameValue b = true) : b.sameValue a = true := by
  cases a <;> cases b
  · exact beq_iff_eq.mpr (beq_iff_eq.mp h).symm
  all_goals exact Binary64.sameValue_symm h

/-- What an integer is rounded to: nothing happens below `2 ^ 53`, and from there on the exponent
is positive. -/
theorem toBinary64_integer (m : Int) (hm : leastSigned ≤ m ∧ m < unsignedBound) :
    (m = 0 ∧ (integer m hm).toBinary64 = .zero false) ∨
      (∃ h, m ≠ 0 ∧ m.natAbs < 2 ^ 53 ∧ (integer m hm).toBinary64 =
        ⟨decide (m < 0), m.natAbs * 2 ^ (52 - m.natAbs.log2), (m.natAbs.log2 : Int) - 52, h⟩) ∨
      (2 ^ 53 ≤ m.natAbs ∧ 0 < (integer m hm).toBinary64.exponent) := by
  by_cases hzero : m = 0
  · subst hzero
    exact .inl ⟨rfl, rfl⟩
  have hne : m.natAbs ≠ 0 := by omega
  by_cases hlt : m.natAbs < 2 ^ 53
  · obtain ⟨h, hnearest⟩ := Binary64.nearest?_of_lt hne hlt (decide (m < 0))
    refine .inr (.inl ⟨h, hzero, hlt, ?_⟩)
    rw [toBinary64, Binary64.ofInt?, hnearest]
    rfl
  · obtain ⟨x, hnearest, -, hpos, -⟩ := Binary64.nearest?_of_ge (n := m.natAbs) (by omega)
      (by simp only [leastSigned, unsignedBound] at hm; omega) (decide (m < 0))
    refine .inr (.inr ⟨by omega, ?_⟩)
    rw [toBinary64, Binary64.ofInt?, hnearest]
    exact hpos

/-- Only zero becomes zero. -/
theorem isZero_toBinary64_iff {m : Int} {hm : leastSigned ≤ m ∧ m < unsignedBound} :
    (integer m hm).toBinary64.isZero = true ↔ m = 0 := by
  constructor
  · intro hzero
    rcases toBinary64_integer m hm with ⟨h, -⟩ | ⟨_, hne, -, hx⟩ | ⟨-, hpos⟩
    · exact h
    · rw [hx] at hzero
      have hscaled := Nat.mul_ne_zero (Int.natAbs_ne_zero.mpr hne)
        (Nat.two_pow_pos (52 - m.natAbs.log2)).ne'
      exact absurd (beq_iff_eq.mp hzero) hscaled
    · rw [Binary64.isZero_of_exponent_pos hpos] at hzero
      cases hzero
  · rintro rfl
    rfl

/-- Below `2 ^ 53` an integer is the only one with its binary64 number. -/
theorem eq_of_toBinary64 {m n : Int} {hm : leastSigned ≤ m ∧ m < unsignedBound}
    {hn : leastSigned ≤ n ∧ n < unsignedBound} (hexact : n.natAbs < 2 ^ 53)
    (h : (integer m hm).toBinary64.sameValue (integer n hn).toBinary64 = true) : m = n := by
  simp only [Binary64.sameValue, Bool.or_eq_true, Bool.and_eq_true, beq_iff_eq,
    isZero_toBinary64_iff] at h
  rcases h with ⟨rfl, rfl⟩ | h
  · rfl
  by_cases hzero : n = 0
  · rw [hzero, ← @isZero_toBinary64_iff m hm, h, isZero_toBinary64_iff]
    exact hzero
  rcases toBinary64_integer n hn with ⟨h0, -⟩ | ⟨_, -, -, hy⟩ | ⟨hlarge, -⟩
  · exact absurd h0 hzero
  · have hlog : n.natAbs.log2 < 53 := (Nat.log2_lt (by omega)).mpr hexact
    rcases toBinary64_integer m hm with ⟨rfl, hx⟩ | ⟨_, -, -, hx⟩ | ⟨-, hpos⟩
    · exact absurd (isZero_toBinary64_iff.mp (h ▸ isZero_toBinary64_iff.mpr rfl)) hzero
    · rw [hx, hy, Binary64.mk.injEq] at h
      obtain ⟨hsign, hsignificand, hexponent⟩ := h
      have hlogs : m.natAbs.log2 = n.natAbs.log2 := by omega
      rw [hlogs] at hsignificand
      have habs := Nat.eq_of_mul_eq_mul_right (Nat.two_pow_pos _) hsignificand
      have hsigns : m < 0 ↔ n < 0 := by simpa using hsign
      omega
    · rw [h, hy] at hpos
      dsimp only at hpos
      omega
  · omega

/-- Numbers that are both the same as a third are the same as each other, if one of them is
exact. -/
theorem sameValue_trans {v w s : Number} (hs : s.Exact) (hvs : v.sameValue s = true)
    (hvw : v.sameValue w = true) : w.sameValue s = true := by
  have hws : w.toBinary64.sameValue v.toBinary64 = true →
      v.toBinary64.sameValue s.toBinary64 = true → w.toBinary64.sameValue s.toBinary64 = true :=
    Binary64.sameValue_trans
  cases w with
  | float w =>
      cases v with
      | float v => exact hws (Binary64.sameValue_symm hvw) (by cases s <;> exact hvs)
      | integer m hm =>
          cases s with
          | float s => exact hws (Binary64.sameValue_symm hvw) hvs
          | integer n hn =>
              cases beq_iff_eq.mp hvs
              exact Binary64.sameValue_symm hvw
  | integer k hk =>
      cases v with
      | integer m hm =>
          cases beq_iff_eq.mp hvw
          exact hvs
      | float v =>
          cases s with
          | float s => exact hws (Binary64.sameValue_symm hvw) hvs
          | integer n hn =>
              exact beq_iff_eq.mpr
                (eq_of_toBinary64 hs (hws (Binary64.sameValue_symm hvw) hvs))

end Number

end DatasetCatalog
