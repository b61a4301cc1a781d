/-!
# Finite binary64 numbers

A finite binary64 number is kept as sign, significand and exponent in its one canonical form, so
its value is an exact rational and equality of records is equality of numbers, the two zeros apart.
Rounding works on exact quotients of natural numbers: `nearest?` gives the neighbour nearest to a
quotient, ties to the even significand, and nothing when the quotient rounds beyond the range.
-/

namespace DatasetCatalog

/-- `significand * 2 ^ exponent` is subnormal or zero, or it is normal and within the range. -/
def Binary64.Canonical (significand : Nat) (exponent : Int) : Prop :=
  (significand < Nat.pow 2 52 ∧ exponent = -1074) ∨
    (Nat.pow 2 52 ≤ significand ∧ significand < Nat.pow 2 53 ∧ -1074 ≤ exponent ∧ exponent ≤ 971)

instance (significand : Nat) (exponent : Int) : Decidable (Binary64.Canonical significand exponent) :=
  inferInstanceAs (Decidable (_ ∨ _))

/-- The number `± significand * 2 ^ exponent`. -/
structure Binary64 where
  negative : Bool
  significand : Nat
  exponent : Int
  canonical : Binary64.Canonical significand exponent
deriving DecidableEq

namespace Binary64

def zero (negative : Bool) : Binary64 := ⟨negative, 0, -1074, .inl ⟨by decide, rfl⟩⟩

instance : Inhabited Binary64 := ⟨zero false⟩

def isZero (x : Binary64) : Bool := x.significand == 0

/-- Equal as numbers: the two zeros are one number. -/
def sameValue (x y : Binary64) : Bool := (x.isZero && y.isZero) || x == y

/-- The magnitude as a quotient of natural numbers. -/
def ratio (x : Binary64) : Nat × Nat :=
  if 0 ≤ x.exponent then (x.significand * Nat.pow 2 x.exponent.toNat, 1)
  else (x.significand, Nat.pow 2 (-x.exponent).toNat)

/-- `num / den` to the nearest natural number, a half to the even one. -/
def roundHalfEven (num den : Nat) : Nat :=
  let quotient := num / den
  let rest := num % den
  if 2 * rest < den then quotient
  else if den < 2 * rest then quotient + 1
  else if quotient % 2 = 0 then quotient
  else quotient + 1

/-- `num / den` measured in units of `2 ^ exponent`. -/
def inUnits (num den : Nat) (exponent : Int) : Nat × Nat :=
  if 0 ≤ exponent then (num, den * Nat.pow 2 exponent.toNat)
  else (num * Nat.pow 2 (-exponent).toNat, den)

/-- The least exponent from `exponent` on at which `num / den` has at most 53 bits; the estimate
that starts the search is at most two short. -/
def fitExponent (num den : Nat) : Nat → Int → Int
  | 0, exponent => exponent
  | tries + 1, exponent =>
    let (n, d) := inUnits num den exponent
    if n / d < Nat.pow 2 53 then exponent else fitExponent num den tries (exponent + 1)

def startExponent (num den : Nat) : Int :=
  max (-1074) ((num.log2 : Int) - (den.log2 : Int) - 53)

/-- The number nearest to `num / den`, ties to the even significand; nothing beyond the range. -/
def nearest? (negative : Bool) (num den : Nat) : Option Binary64 :=
  if num = 0 then some (zero negative)
  else
    let exponent := fitExponent num den 3 (startExponent num den)
    let (n, d) := inUnits num den exponent
    let rounded := roundHalfEven n d
    let (m, e) := if rounded = Nat.pow 2 53 then (Nat.pow 2 52, exponent + 1) else (rounded, exponent)
    if h : Canonical m e then some ⟨negative, m, e, h⟩ else none

def ofInt? (n : Int) : Option Binary64 := nearest? (decide (n < 0)) n.natAbs 1

def mul? (x y : Binary64) : Option Binary64 :=
  let (a, b) := x.ratio
  let (c, d) := y.ratio
  nearest? (x.negative != y.negative) (a * c) (b * d)

/-- The rounded quotient; nothing for a zero divisor. -/
def div? (x y : Binary64) : Option Binary64 :=
  let (a, b) := x.ratio
  let (c, d) := y.ratio
  if c = 0 then none else nearest? (x.negative != y.negative) (a * d) (b * c)

def digitCount (n : Nat) : Nat := (Nat.toDigits 10 n).length

/-- The number nearest to `digits * 10 ^ scale`. Scales far beyond the range are settled without
computing the power. -/
def ofDecimal? (negative : Bool) (digits : Nat) (scale : Int) : Option Binary64 :=
  if digits = 0 then some (zero negative)
  else
    let top : Int := digitCount digits + scale
    if 400 < top then none
    else if top < -400 then some (zero negative)
    else if 0 ≤ scale then nearest? negative (digits * Nat.pow 10 scale.toNat) 1
    else nearest? negative digits (Nat.pow 10 (-scale).toNat)

end Binary64

end DatasetCatalog
