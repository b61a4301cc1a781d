import DatasetCatalog.Proofs.Number.Integer
import Mathlib.Algebra.Order.Field.Power
import Mathlib.Algebra.Order.Ring.Rat
import Mathlib.Tactic.Linarith
import Mathlib.Tactic.NormNum
import Mathlib.Tactic.Positivity

/-!
# The rational numbers that numbers denote

A binary64 number is compared by its encoding, which is canonical, and so by the rational number that
it denotes. Beside a binary64 number an integer stands for what it is rounded to, and that is the
nearest binary64 number, of two equally near ones the even one (`Number.toBinary64_nearest`). An
integer that is a binary64 number is not changed by that; any other may be taken for its neighbour.
-/

namespace DatasetCatalog

namespace Binary64

/-- The distance from zero. -/
def magnitude (x : Binary64) : ℚ := x.significand * 2 ^ x.exponent

/-- The rational number that is encoded; both zeros are zero. -/
def value (x : Binary64) : ℚ := if x.negative then -x.magnitude else x.magnitude

/-- The number on the other side of zero. -/
def opposite (x : Binary64) : Binary64 := { x with negative := !x.negative }

/-- The number on the positive side of zero. -/
def unsigned (x : Binary64) : Binary64 := { x with negative := false }

theorem magnitude_nonneg (x : Binary64) : 0 ≤ x.magnitude := by
  unfold magnitude
  positivity

theorem value_of_negative {x : Binary64} (h : x.negative = true) : x.value = -x.magnitude :=
  if_pos h

theorem value_of_not_negative {x : Binary64} (h : x.negative = false) : x.value = x.magnitude :=
  if_neg (Bool.eq_false_iff.mp h)

@[simp] theorem value_opposite (x : Binary64) : x.opposite.value = -x.value := by
  cases h : x.negative <;> simp [value, opposite, magnitude, h]

theorem value_unsigned (x : Binary64) : x.unsigned.value = x.magnitude := rfl

theorem abs_value (x : Binary64) : |x.value| = x.magnitude := by
  unfold value
  split
  · rw [abs_neg, abs_of_nonneg x.magnitude_nonneg]
  · exact abs_of_nonneg x.magnitude_nonneg

theorem value_le_magnitude (x : Binary64) : x.value ≤ x.magnitude :=
  x.abs_value ▸ le_abs_self x.value

theorem magnitude_eq_of_value {x y : Binary64} (h : x.value = y.value) :
    x.magnitude = y.magnitude := by
  rw [← abs_value, h, abs_value]

theorem isZero_iff_magnitude {x : Binary64} : x.isZero = true ↔ x.magnitude = 0 := by
  simp [isZero, magnitude, zpow_ne_zero]

theorem isZero_iff_value {x : Binary64} : x.isZero = true ↔ x.value = 0 := by
  rw [isZero_iff_magnitude, ← abs_value, abs_eq_zero]

/-- Of two different forms of one magnitude the one with the smaller exponent has too many bits. -/
theorem canonical_unique_of_le {m n : Nat} {e f : Int} (hm : Canonical m e) (hn : Canonical n f)
    (hle : e ≤ f) (h : (m : ℚ) * 2 ^ e = n * 2 ^ f) : m = n ∧ e = f := by
  obtain ⟨k, rfl⟩ := Int.le.dest hle
  have hscaled : m = n * 2 ^ k := by
    have hpower : (2 : ℚ) ^ e ≠ 0 := zpow_ne_zero e two_ne_zero
    rw [zpow_add₀ two_ne_zero, zpow_natCast, mul_left_comm, mul_comm (m : ℚ)] at h
    exact_mod_cast mul_left_cancel₀ hpower h
  simp only [Canonical, Nat.pow_eq] at hm hn
  cases k with
  | zero => simp_all
  | succ k =>
      have hdouble : n * 2 ≤ n * 2 ^ (k + 1) :=
        Nat.mul_le_mul_left n (Nat.le_self_pow (Nat.succ_ne_zero k) 2)
      omega

theorem canonical_unique {m n : Nat} {e f : Int} (hm : Canonical m e) (hn : Canonical n f)
    (h : (m : ℚ) * 2 ^ e = n * 2 ^ f) : m = n ∧ e = f := by
  rcases le_total e f with hle | hle
  · exact canonical_unique_of_le hm hn hle h
  · obtain ⟨hsame, hexponent⟩ := canonical_unique_of_le hn hm hle h.symm
    exact ⟨hsame.symm, hexponent.symm⟩

/-- The comparison of binary64 numbers is that of the rational numbers. -/
theorem sameValue_iff_value {x y : Binary64} : x.sameValue y = true ↔ x.value = y.value := by
  simp only [sameValue, Bool.or_eq_true, Bool.and_eq_true, beq_iff_eq]
  constructor
  · rintro (⟨hx, hy⟩ | rfl)
    · rw [isZero_iff_value.mp hx, isZero_iff_value.mp hy]
    · rfl
  · intro h
    have hmagnitude := magnitude_eq_of_value h
    obtain ⟨hsignificand, hexponent⟩ := canonical_unique x.canonical y.canonical hmagnitude
    by_cases hsign : x.negative = y.negative
    · right
      cases x; cases y
      simp_all
    · -- Only zero is its own opposite.
      have hzero : x.magnitude = 0 := by
        cases hx : x.negative <;> cases hy : y.negative
        case false.true =>
          rw [value_of_not_negative hx, value_of_negative hy, ← hmagnitude] at h
          linarith
        case true.false =>
          rw [value_of_negative hx, value_of_not_negative hy, ← hmagnitude] at h
          linarith
        all_goals exact absurd (hx.trans hy.symm) hsign
      exact .inl ⟨isZero_iff_magnitude.mpr hzero, isZero_iff_magnitude.mpr (hmagnitude ▸ hzero)⟩

theorem significand_eq_of_value {x y : Binary64} (h : x.value = y.value) :
    x.significand = y.significand :=
  (canonical_unique x.canonical y.canonical (magnitude_eq_of_value h)).1

/-! ## The nearest number -/

/-- Every other number is farther from `q`, or as far and its significand is odd while that of `x` is
even. -/
def Nearest (x : Binary64) (q : ℚ) : Prop :=
  ∀ y : Binary64, y.value = x.value ∨ |x.value - q| < |y.value - q| ∨
    |x.value - q| = |y.value - q| ∧ x.significand % 2 = 0 ∧ y.significand % 2 = 1

namespace Nearest

variable {x y : Binary64} {q : ℚ}

theorem value_eq (hx : x.Nearest q) (hy : y.Nearest q) : x.value = y.value := by
  rcases hx y with hsame | hfarther | ⟨htie, heven, -⟩
  · exact hsame.symm
  · rcases hy x with hsame | hnearer | ⟨htie, -⟩
    · exact hsame
    · exact absurd hnearer (lt_asymm hfarther)
    · exact absurd htie hfarther.ne'
  · rcases hy x with hsame | hnearer | ⟨-, -, hodd⟩
    · exact hsame
    · exact absurd htie hnearer.ne'
    · omega

theorem congr (hx : x.Nearest q) (h : x.value = y.value) : y.Nearest q := by
  intro z
  rw [← h, ← significand_eq_of_value h]
  exact hx z

theorem opposite (hx : x.Nearest q) : x.opposite.Nearest (-q) := by
  intro y
  have hself : |x.opposite.value - -q| = |x.value - q| := by
    rw [value_opposite, ← abs_neg]
    ring_nf
  have hother : |y.value - -q| = |y.opposite.value - q| := by
    rw [value_opposite, ← abs_neg]
    ring_nf
  rw [hself, hother]
  refine (hx y.opposite).imp_left fun hsame => ?_
  rw [value_opposite, ← hsame, value_opposite, neg_neg]

/-- A rational number that is a binary64 number is the nearest to itself. -/
theorem of_value (h : x.value = q) : x.Nearest q := by
  intro y
  by_cases hsame : y.value = x.value
  · exact .inl hsame
  · right; left
    rw [h, sub_self, abs_zero, ← h]
    exact abs_pos.mpr (sub_ne_zero.mpr hsame)

end Nearest

/-! ## Rounding natural numbers -/

theorem roundHalfEven_cases (n d : Nat) :
    roundHalfEven n d = n / d ∧ 2 * (n % d) < d ∨ roundHalfEven n d = n / d + 1 ∧ d < 2 * (n % d) ∨
      2 * (n % d) = d ∧ roundHalfEven n d % 2 = 0 := by
  simp only [roundHalfEven]
  split
  · omega
  · split
    · omega
    · split <;> omega

/-- An integer is one of two neighbours, or it is beyond them. -/
theorem multiple_cases (k d : Nat) (z : Int) :
    z = k ∨ z = k + 1 ∨ (z * d : Int) ≤ k * d - d ∨ (k * d : Int) + 2 * d ≤ z * d := by
  rcases Int.lt_trichotomy z k with hz | hz | hz
  · have hbelow := Int.mul_le_mul_of_nonneg_right (Int.le_sub_one_of_lt hz) (Int.natCast_nonneg d)
    rw [Int.sub_mul, Int.one_mul] at hbelow
    exact .inr (.inr (.inl hbelow))
  · exact .inl hz
  · rcases Int.lt_or_eq_of_le (Int.add_one_le_of_lt hz) with hz | hz
    · have habove := Int.mul_le_mul_of_nonneg_right (Int.add_one_le_of_lt hz) (Int.natCast_nonneg d)
      rw [Int.add_assoc, Int.add_mul] at habove
      exact .inr (.inr (.inr habove))
    · exact .inr (.inl hz.symm)

/-- Any other multiple of the divisor is farther, or as far and odd. -/
theorem roundHalfEven_nearest (n : Nat) {d : Nat} (hd : 0 < d) (z : Int) :
    z = roundHalfEven n d ∨ |(roundHalfEven n d * d : Int) - n| < |z * d - n| ∨
      |(roundHalfEven n d * d : Int) - n| = |z * d - n| ∧ roundHalfEven n d % 2 = 0 ∧ z % 2 = 1 := by
  have hparts : (n : Int) = (n / d : Nat) * d + (n % d : Nat) := by
    exact_mod_cast (Nat.div_add_mod' n d).symm
  have hrest : n % d < d := Nat.mod_lt n hd
  have hbounds := roundHalfEven_bounds n d
  have hrounded := roundHalfEven_cases n d
  have hside := multiple_cases (n / d) d z
  generalize roundHalfEven n d = m at hbounds hrounded ⊢
  generalize n / d = k at hparts hbounds hrounded hside
  have hnext : ((k + 1 : Int) * d) = k * d + d := by
    rw [Int.add_mul, Int.one_mul]
  rw [Int.abs_eq_natAbs, Int.abs_eq_natAbs]
  obtain rfl | rfl : m = k ∨ m = k + 1 := by omega
  · rcases hside with rfl | rfl | hside | hside <;> omega
  · rw [Nat.cast_add, Nat.cast_one, hnext]
    rcases hside with rfl | rfl | hside | hside <;> omega

/-- A number with an exponent of `k` or more is a multiple of `2 ^ k`, an odd one only if its
significand is odd. -/
theorem exists_multiple {y : Binary64} {k : Nat} (h : (k : Int) ≤ y.exponent) :
    ∃ z : Int, y.value = z * 2 ^ k ∧ (z % 2 = 1 → y.significand % 2 = 1) := by
  obtain ⟨j, hj⟩ := Int.le.dest h
  have hmagnitude : y.magnitude = (y.significand * 2 ^ j : Nat) * 2 ^ k := by
    rw [magnitude, ← hj, zpow_add₀ two_ne_zero, zpow_natCast, zpow_natCast]
    push_cast
    ring
  have hodd : y.significand * 2 ^ j % 2 = 1 → y.significand % 2 = 1 := by
    rw [Nat.mul_mod]
    intro hodd
    by_contra heven
    rw [Nat.mod_two_ne_one.mp heven, Nat.zero_mul] at hodd
    cases hodd
  generalize y.significand * 2 ^ j = m at hmagnitude hodd
  cases hy : y.negative with
  | false =>
      refine ⟨m, ?_, by omega⟩
      rw [value_of_not_negative hy, hmagnitude, Int.cast_natCast]
  | true =>
      refine ⟨-m, ?_, by omega⟩
      rw [value_of_negative hy, hmagnitude, Int.cast_neg, Int.cast_natCast, neg_mul]

/-- A number with a smaller exponent is below the least normal number with the exponent `k`. -/
theorem value_lt_of_exponent_lt {y : Binary64} {k : Nat} (h : y.exponent < k) :
    y.value < 2 ^ 52 * 2 ^ k := by
  have hcanonical := y.canonical
  simp only [Canonical, Nat.pow_eq] at hcanonical
  have hsignificand : (y.significand : ℚ) < 2 ^ 53 := by
    have : y.significand < 2 ^ 53 := by omega
    exact_mod_cast this
  have hpower : (2 : ℚ) ^ y.exponent ≤ 2 ^ ((k : Int) - 1) :=
    zpow_le_zpow_right₀ one_le_two (by omega)
  calc y.value ≤ y.magnitude := y.value_le_magnitude
    _ < 2 ^ 53 * 2 ^ ((k : Int) - 1) := mul_lt_mul hsignificand hpower (by positivity) (by positivity)
    _ = 2 ^ 52 * 2 ^ k := by
      rw [zpow_sub_one₀ two_ne_zero, zpow_natCast]
      ring

/-- A number with 53 bits in some unit has an even significand if the multiple is even; one bit more
can only be a power of two. -/
theorem significand_even_of_multiple {x : Binary64} {m k : Nat} (hx : x.value = m * 2 ^ k)
    (hlow : 2 ^ 52 ≤ m) (hhigh : m ≤ 2 ^ 53) (hk : k ≤ 970) (heven : m % 2 = 0) :
    x.significand % 2 = 0 := by
  have hmagnitude : x.magnitude = m * 2 ^ (k : Int) := by
    rw [← abs_value, hx, zpow_natCast]
    exact abs_of_nonneg (by positivity)
  rcases Nat.lt_or_eq_of_le hhigh with hlt | rfl
  · have hcanonical : Canonical m k := .inr ⟨hlow, hlt, by omega, by omega⟩
    rw [(canonical_unique x.canonical hcanonical hmagnitude).1]
    exact heven
  · have hcanonical : Canonical (2 ^ 52) (k + 1) :=
      .inr ⟨Nat.le_refl _, Nat.pow_lt_pow_right (by decide) (by decide), by omega, by omega⟩
    have hnormal : x.magnitude = (2 ^ 52 : Nat) * 2 ^ ((k : Int) + 1) := by
      rw [hmagnitude, zpow_add_one₀ two_ne_zero]
      push_cast
      ring
    rw [(canonical_unique x.canonical hcanonical hnormal).1]
    rfl

/-- In the unit of its 53 leading bits a natural number has 53 bits. -/
theorem quotient_bounds {n : Nat} (hge : 2 ^ 53 ≤ n) :
    2 ^ 52 ≤ n / 2 ^ (n.log2 - 52) ∧ n / 2 ^ (n.log2 - 52) < 2 ^ 53 := by
  have hn : n ≠ 0 := by omega
  have hlog : 53 ≤ n.log2 := (Nat.le_log2 hn).mpr hge
  have hpower : 0 < 2 ^ (n.log2 - 52) := Nat.two_pow_pos _
  rw [Nat.le_div_iff_mul_le hpower, Nat.div_lt_iff_lt_mul hpower, ← Nat.pow_add, ← Nat.pow_add,
    show 52 + (n.log2 - 52) = n.log2 by omega, show 53 + (n.log2 - 52) = n.log2 + 1 by omega]
  exact ⟨Nat.log2_self_le hn, Nat.lt_log2_self⟩

/-- The nearest multiple of the unit in which `n` has 53 bits is the nearest binary64 number. -/
theorem nearest_of_multiple {n : Nat} (hge : 2 ^ 53 ≤ n) (hlt : n < 2 ^ 65) {x : Binary64}
    (hx : x.value = roundHalfEven n (2 ^ (n.log2 - 52)) * 2 ^ (n.log2 - 52)) : x.Nearest n := by
  obtain ⟨hlow, hhigh⟩ := quotient_bounds hge
  have hrounded := roundHalfEven_bounds n (2 ^ (n.log2 - 52))
  have hleast : 2 ^ 52 * 2 ^ (n.log2 - 52) ≤ n :=
    Nat.le_trans (Nat.mul_le_mul_right _ hlow) (Nat.div_mul_le_self n _)
  have hlog : n.log2 < 65 := (Nat.log2_lt (by omega)).mpr hlt
  have hgrid := roundHalfEven_nearest n (Nat.two_pow_pos (n.log2 - 52))
  have hk : n.log2 - 52 ≤ 970 := by omega
  generalize n.log2 - 52 = k at *
  generalize roundHalfEven n (2 ^ k) = m at *
  have hweak : ∀ z : Int, |(m * 2 ^ k : ℚ) - n| ≤ |(z * 2 ^ k : ℚ) - n| := by
    intro z
    rcases hgrid z with rfl | hfarther | ⟨htie, -⟩
    · rfl
    · exact_mod_cast hfarther.le
    · exact_mod_cast htie.le
  intro y
  rcases Int.lt_or_le y.exponent k with hexponent | hexponent
  · -- Between such a number and `n` lies a multiple of the unit.
    right; left
    have hbelow : (2 ^ 52 * 2 ^ k : ℚ) ≤ n := by exact_mod_cast hleast
    have hvalue := value_lt_of_exponent_lt hexponent
    have hnear := hweak (2 ^ 52)
    rw [Int.cast_pow, Int.cast_ofNat, abs_of_nonpos (sub_nonpos.mpr hbelow)] at hnear
    have hfar : |y.value - n| = -(y.value - n) := abs_of_nonpos (by linarith)
    rw [hx, hfar]
    linarith
  · obtain ⟨z, hz, hodd⟩ := exists_multiple hexponent
    rcases hgrid z with hsame | hfarther | ⟨htie, heven, hzodd⟩
    · left
      rw [hz, hx, hsame]
      rfl
    · right; left
      rw [hz, hx]
      exact_mod_cast hfarther
    · right; right
      refine ⟨?_, significand_even_of_multiple hx (by omega) (by omega) hk heven, hodd hzodd⟩
      rw [hz, hx]
      exact_mod_cast htie

theorem exists_nearest?_of_lt {n : Nat} (hlt : n < 2 ^ 53) (negative : Bool) :
    ∃ x, nearest? negative n 1 = some x ∧ x.negative = negative ∧ x.unsigned.value = n := by
  by_cases hn : n = 0
  · exact ⟨zero negative, by rw [nearest?, if_pos hn], rfl, by
      simp [value_unsigned, magnitude, zero, hn]⟩
  · obtain ⟨hcanonical, hx⟩ := nearest?_of_lt hn hlt negative
    have hlog : n.log2 < 53 := (Nat.log2_lt hn).mpr hlt
    have hexponent : (n.log2 : Int) - 52 = -(52 - n.log2 : Nat) := by omega
    refine ⟨_, hx, rfl, ?_⟩
    change ((n * 2 ^ (52 - n.log2) : Nat) : ℚ) * 2 ^ ((n.log2 : Int) - 52) = n
    rw [hexponent, zpow_neg, zpow_natCast]
    push_cast
    exact mul_inv_cancel_right₀ (by positivity) _

/-- A natural number is rounded to the nearest binary64 number. -/
theorem exists_nearest? {n : Nat} (hlt : n < 2 ^ 65) (negative : Bool) :
    ∃ x, nearest? negative n 1 = some x ∧ x.negative = negative ∧ x.unsigned.Nearest n := by
  rcases Nat.lt_or_ge n (2 ^ 53) with hsmall | hge
  · obtain ⟨x, hx, hsign, hvalue⟩ := exists_nearest?_of_lt hsmall negative
    exact ⟨x, hx, hsign, .of_value hvalue⟩
  · obtain ⟨x, hx, hsign, hpositive, hunits⟩ := nearest?_of_ge hge hlt negative
    refine ⟨x, hx, hsign, nearest_of_multiple hge hlt ?_⟩
    have hexponent : x.exponent = (x.exponent.toNat : Int) :=
      (Int.toNat_of_nonneg (Int.le_of_lt hpositive)).symm
    rw [value_unsigned, magnitude, hexponent, zpow_natCast]
    exact_mod_cast hunits

end Binary64

/-! ## Numbers of a document -/

namespace Number

/-- The rational number that is denoted: an integer stands for itself. -/
def value : Number → ℚ
  | .integer n _ => n
  | .float x => x.value

/-- Both denote one rational number. -/
def SameRational (m n : Number) : Prop := m.value = n.value

/-- Both denote one rational number, after an integer beside a binary64 number is rounded. -/
def SameRounded : Number → Number → Prop
  | .integer m _, .integer n _ => m = n
  | .integer n _, .float x => x.Nearest n
  | .float x, .integer n _ => x.Nearest n
  | .float x, .float y => x.value = y.value

/-- Whether a binary64 number denotes the same rational number. -/
def Representable (n : Number) : Prop := ∃ x : Binary64, x.value = n.value

/-- If just one of them is an integer, that one is a binary64 number as well. -/
def Commensurable : Number → Number → Prop
  | .integer m hm, .float _ => (integer m hm).Representable
  | .float _, .integer n hn => (integer n hn).Representable
  | _, _ => True

theorem toBinary64_nearest (n : Int) (hn : leastSigned ≤ n ∧ n < unsignedBound) :
    (integer n hn).toBinary64.Nearest n := by
  obtain ⟨x, hx, hsign, hnearest⟩ := Binary64.exists_nearest? (n := n.natAbs)
    (by simp only [leastSigned, unsignedBound] at hn; omega) (decide (n < 0))
  have hrounded : (integer n hn).toBinary64 = x := by
    rw [toBinary64, Binary64.ofInt?, hx]
    rfl
  rw [hrounded]
  rw [Nat.cast_natAbs] at hnearest
  rcases lt_or_ge n 0 with hnegative | hnonneg
  · have hopposite := hnearest.opposite
    rw [abs_of_neg hnegative, Int.cast_neg, neg_neg] at hopposite
    apply hopposite.congr
    rw [Binary64.value_opposite, Binary64.value_unsigned]
    exact (Binary64.value_of_negative (hsign.trans (decide_eq_true hnegative))).symm
  · rw [abs_of_nonneg hnonneg] at hnearest
    apply hnearest.congr
    rw [Binary64.value_unsigned]
    exact (Binary64.value_of_not_negative (hsign.trans (decide_eq_false hnonneg.not_gt))).symm

/-- Two integers are compared exactly, and beside a binary64 number an integer is rounded. -/
theorem sameValue_iff_sameRounded {m n : Number} : m.sameValue n = true ↔ m.SameRounded n := by
  have hinteger : ∀ (n : Int) (hn : leastSigned ≤ n ∧ n < unsignedBound) (x : Binary64),
      (integer n hn).toBinary64.value = x.value ↔ x.Nearest n := fun n hn x =>
    ⟨(toBinary64_nearest n hn).congr, (toBinary64_nearest n hn).value_eq⟩
  cases m with
  | integer m hm =>
      cases n with
      | integer n hn => exact beq_iff_eq
      | float x => exact Binary64.sameValue_iff_value.trans (hinteger m hm x)
  | float x =>
      cases n with
      | integer n hn =>
          exact Binary64.sameValue_iff_value.trans (eq_comm.trans (hinteger n hn x))
      | float y => exact Binary64.sameValue_iff_value

theorem SameRational.sameRounded {m n : Number} (h : m.SameRational n) : m.SameRounded n := by
  cases m <;> cases n
  case integer.integer => exact Int.cast_inj.mp h
  case integer.float => exact .of_value (Eq.symm h)
  case float.integer => exact .of_value h
  case float.float => exact h

/-- Nothing is rounded that need not be. -/
theorem Commensurable.sameRounded_iff {m n : Number} (h : m.Commensurable n) :
    m.SameRounded n ↔ m.SameRational n := by
  refine ⟨fun hsame => ?_, SameRational.sameRounded⟩
  cases m <;> cases n
  case integer.integer => exact Int.cast_inj.mpr hsame
  case integer.float =>
    obtain ⟨y, hy⟩ := h
    exact hy.symm.trans ((Binary64.Nearest.of_value hy).value_eq hsame)
  case float.integer =>
    obtain ⟨y, hy⟩ := h
    exact (hsame.value_eq (.of_value hy)).trans hy
  case float.float => exact hsame

theorem representable_float (x : Binary64) : (float x).Representable := ⟨x, rfl⟩

theorem Exact.representable {n : Number} (h : n.Exact) : n.Representable := by
  cases n with
  | float x => exact representable_float x
  | integer n hn =>
      obtain ⟨x, -, -, hvalue⟩ := Binary64.exists_nearest?_of_lt h false
      rw [Nat.cast_natAbs] at hvalue
      rcases lt_or_ge n 0 with hnegative | hnonneg
      · refine ⟨x.unsigned.opposite, ?_⟩
        rw [Binary64.value_opposite, hvalue, abs_of_neg hnegative, Int.cast_neg, neg_neg]
        rfl
      · refine ⟨x.unsigned, ?_⟩
        rw [hvalue, abs_of_nonneg hnonneg]
        rfl

theorem Representable.commensurable {m n : Number} (hm : m.Representable) (hn : n.Representable) :
    m.Commensurable n := by
  cases m <;> cases n
  case integer.float => exact hm
  case float.integer => exact hn
  all_goals trivial

end Number

end DatasetCatalog
