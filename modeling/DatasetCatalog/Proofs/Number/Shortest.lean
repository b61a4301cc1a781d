import DatasetCatalog.Number.Shortest

/-!
# The digits of a number other than zero

A search for digits that read back only ends at such digits, so the digits that a number other than
zero is written with are not zero, and the first of them is not.
-/

namespace DatasetCatalog

/-- Only zeros are dropped from the end, so something else is left. -/
theorem Decimal.digits_trimmed_ne_zero {d : Decimal} (hd : d.digits ≠ 0) (fuel : Nat) :
    (d.trimmed fuel).digits ≠ 0 := by
  induction fuel generalizing d with
  | zero => exact hd
  | succ fuel ih =>
      rw [trimmed]
      split
      next hzero =>
        refine ih ?_
        dsimp only
        omega
      next => exact hd

namespace Binary64

variable {x : Binary64}

theorem digits_ne_zero_of_readsBack (hx : x.isZero = false) {d : Decimal}
    (h : x.readsBack d = true) : d.digits ≠ 0 := by
  intro hzero
  rw [readsBack, ofDecimal?, if_pos hzero] at h
  rw [beq_iff_eq.mp h] at hx
  cases hx

/-- A search that finds digits has checked that they read back. -/
theorem readsBack_of_searchShortest {num den tries count : Nat} {top : Int} {d : Decimal}
    (h : searchShortest x num den top tries count = some d) : x.readsBack d = true := by
  induction tries generalizing count with
  | zero => cases h
  | succ tries ih =>
      rw [searchShortest] at h
      split at h
      next found hfound =>
        cases h
        exact List.find?_some hfound
      next => exact ih h

theorem digits_exactDecimal_ne_zero (hx : x.isZero = false) : x.exactDecimal.digits ≠ 0 := by
  have hsignificand : x.significand ≠ 0 := by simpa [isZero] using hx
  rw [exactDecimal]
  split
  · exact Nat.mul_ne_zero hsignificand (Nat.ne_of_gt (Nat.pow_pos Nat.two_pos))
  · exact Nat.mul_ne_zero hsignificand (Nat.ne_of_gt (Nat.pow_pos (Nat.succ_pos 4)))

theorem digits_shortest_ne_zero (hx : x.isZero = false) : x.shortest.digits ≠ 0 := by
  have hsearch : ∀ num den top,
      ((searchShortest x num den top 17 1).getD x.exactDecimal).digits ≠ 0 := by
    intro num den top
    cases hfound : searchShortest x num den top 17 1 with
    | none => exact digits_exactDecimal_ne_zero hx
    | some d => exact digits_ne_zero_of_readsBack hx (readsBack_of_searchShortest hfound)
  rw [shortest]
  exact Decimal.digits_trimmed_ne_zero (hsearch _ _ _) _

end Binary64

end DatasetCatalog
