import DatasetCatalog.Number.Binary64

/-!
# The fewest digits that read back

A positive binary64 number is written with the fewest decimal digits whose nearest binary64 number
it is; among those the decimal nearest to it, and of two equally near ones the even one. For each
digit count only the two neighbours on that decimal grid can qualify. The exact expansion stands in
if no count up to seventeen does, so the digits always read back.
-/

namespace DatasetCatalog

/-- The positive decimal `digits * 10 ^ scale`. -/
structure Decimal where
  digits : Nat
  scale : Int
deriving DecidableEq, Inhabited

namespace Decimal

/-- Drops zeros from the end of the digits; `fuel` bounds how many. -/
def trimmed : Nat → Decimal → Decimal
  | 0, x => x
  | fuel + 1, x =>
    if x.digits ≠ 0 ∧ x.digits % 10 = 0 then trimmed fuel ⟨x.digits / 10, x.scale + 1⟩ else x

def text (x : Decimal) : List Char := Nat.toDigits 10 x.digits

/-- The power of ten of the first digit. -/
def leading (x : Decimal) : Int := x.scale + (x.text.length : Int) - 1

end Decimal

namespace Binary64

/-- The binary64 number nearest to `d` has the magnitude of `x`. -/
def readsBack (x : Binary64) (d : Decimal) : Bool :=
  match ofDecimal? x.negative d.digits d.scale with
  | some y => x == y
  | none => false

/-- The greatest `k` with `10 ^ k ≤ num / den`, for a positive quotient. -/
def floorLog10 (num den : Nat) : Int :=
  if den ≤ num then (digitCount (num / den) : Int) - 1
  else
    let places := digitCount (den / num)
    if den ≤ num * Nat.pow 10 (places - 1) then -((places : Int) - 1) else -(places : Int)

/-- The neighbours of `num / den` on the grid of multiples of `10 ^ scale`, nearer one first; of two
equally near ones the even one first. -/
def neighbours (num den : Nat) (scale : Int) : List Decimal :=
  let (n, d) :=
    if 0 ≤ scale then (num, den * Nat.pow 10 scale.toNat) else (num * Nat.pow 10 (-scale).toNat, den)
  let below := n / d
  let rest := n % d
  let lower : Decimal := ⟨below, scale⟩
  let upper : Decimal := ⟨below + 1, scale⟩
  if rest = 0 then [lower]
  else if 2 * rest < d then [lower, upper]
  else if d < 2 * rest then [upper, lower]
  else if below % 2 = 0 then [lower, upper]
  else [upper, lower]

def searchShortest (x : Binary64) (num den : Nat) (top : Int) : Nat → Nat → Option Decimal
  | 0, _ => none
  | tries + 1, count =>
    match (neighbours num den (top - count + 1)).find? x.readsBack with
    | some d => some d
    | none => searchShortest x num den top tries (count + 1)

def exactDecimal (x : Binary64) : Decimal :=
  if 0 ≤ x.exponent then ⟨x.significand * Nat.pow 2 x.exponent.toNat, 0⟩
  else ⟨x.significand * Nat.pow 5 (-x.exponent).toNat, x.exponent⟩

/-- The shortest digits of the magnitude of a number that is not zero. -/
def shortest (x : Binary64) : Decimal :=
  let (num, den) := x.ratio
  let d := (searchShortest x num den (floorLog10 num den) 17 1).getD x.exactDecimal
  d.trimmed (digitCount d.digits)

end Binary64

end DatasetCatalog
