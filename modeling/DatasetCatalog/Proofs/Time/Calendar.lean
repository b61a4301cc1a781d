import DatasetCatalog.Time.Calendar
import Mathlib.Tactic.IntervalCases

/-!
# The calendar counts every day once

The date of a day number has that day number again, and is a date that the calendar knows. The year
of an era is estimated from the day by subtracting leap days as if they were evenly spread;
`yearOfEra_bounds` says that the estimate is exact. Everything else is linear.
-/

namespace DatasetCatalog.Time.Date

/-- The estimated year begins no later than the day and ends after it. Four years more or less
around the multiple of four that is nearest, and five centuries, are all there is to check. -/
theorem yearOfEra_bounds {day year : Int} (hlow : 0 ≤ day) (hhigh : day < 146097)
    (hyear : year = (day - day / 1460 + day / 36524 - day / 146096) / 365) :
    0 ≤ year ∧ year < 400 ∧ 365 * year + year / 4 - year / 100 ≤ day ∧
      day < 365 * (year + 1) + (year + 1) / 4 - (year + 1) / 100 + (year + 1) / 400 := by
  obtain ⟨quads, hquads⟩ : ∃ q, q = day / 1460 := ⟨_, rfl⟩
  obtain ⟨century, hcentury⟩ : ∃ c, c = day / 36524 := ⟨_, rfl⟩
  rw [← hquads, ← hcentury] at hyear
  have hnear : year - 4 * quads = -1 ∨ year - 4 * quads = 0 ∨ year - 4 * quads = 1 ∨
      year - 4 * quads = 2 ∨ year - 4 * quads = 3 ∨ year - 4 * quads = 4 := by omega
  have hcenturies : century = 0 ∨ century = 1 ∨ century = 2 ∨ century = 3 ∨ century = 4 := by omega
  rcases hcenturies with rfl | rfl | rfl | rfl | rfl <;>
    rcases hnear with hnear | hnear | hnear | hnear | hnear | hnear <;> omega

/-- A day of a year that starts in March, as a date of that year. -/
theorem ofDays_eq (n : Int) : ∃ (era year : Int) (day : Nat), 0 ≤ year ∧ year < 400 ∧
    (day : Int) < 365 + ((year + 1) / 4 - year / 4) - ((year + 1) / 100 - year / 100) +
      (year + 1) / 400 ∧
    n + 719468 = era * 146097 + (365 * year + year / 4 - year / 100) + day ∧
    ofDays n =
      let month := (5 * day + 2) / 153
      let calendarMonth := if month < 10 then month + 3 else month - 9
      ⟨year + era * 400 + (if calendarMonth ≤ 2 then 1 else 0), calendarMonth,
        day - daysBeforeMonth month + 1⟩ := by
  obtain ⟨era, hera⟩ : ∃ era, era = (n + 719468).fdiv 146097 := ⟨_, rfl⟩
  have hdiv : era = (n + 719468) / 146097 := by
    rw [hera, Int.fdiv_eq_ediv_of_nonneg _ (by decide)]
  obtain ⟨year, hyear⟩ : ∃ year, year = (n + 719468 - era * 146097 -
    (n + 719468 - era * 146097) / 1460 + (n + 719468 - era * 146097) / 36524 -
    (n + 719468 - era * 146097) / 146096) / 365 := ⟨_, rfl⟩
  obtain ⟨hlow, hhigh, hstart, hend⟩ := yearOfEra_bounds (by omega) (by omega) hyear
  refine ⟨era, year,
    (n + 719468 - era * 146097 - (365 * year + year / 4 - year / 100)).toNat, hlow, hhigh, by omega,
    by omega, ?_⟩
  rw [ofDays, ← hera, ← hyear]

theorem toDays_ofDays (n : Int) : (ofDays n).toDays = n := by
  obtain ⟨era, year, day, hlow, hhigh, hday, hn, heq⟩ := ofDays_eq n
  obtain ⟨month, hmonth⟩ : ∃ m, m = (5 * day + 2) / 153 := ⟨_, rfl⟩
  rw [← hmonth] at heq
  obtain ⟨calendarMonth, hcalendar⟩ : ∃ m, m = if month < 10 then month + 3 else month - 9 :=
    ⟨_, rfl⟩
  have hback : (calendarMonth + 9) % 12 = month := by
    rw [hcalendar]
    split <;> omega
  have hyear : (if calendarMonth ≤ 2 then year + era * 400 + (if calendarMonth ≤ 2 then 1 else 0) - 1
      else year + era * 400 + (if calendarMonth ≤ 2 then 1 else 0)) = year + era * 400 := by
    split <;> omega
  have hera : (year + era * 400).fdiv 400 = era := by
    rw [Int.fdiv_eq_ediv_of_nonneg _ (by decide)]
    omega
  have hbefore : daysBeforeMonth month ≤ day := by
    rw [daysBeforeMonth]
    omega
  dsimp only at heq
  rw [heq, ← hcalendar, toDays]
  dsimp only
  rw [hyear, hera, hback, Int.add_sub_cancel]
  omega

theorem isLeap_iff {year : Int} : isLeap year = true ↔
    (year % 4 = 0 ∧ year % 100 ≠ 0) ∨ year % 400 = 0 := by
  simp [isLeap]

theorem isValid_ofDays (n : Int) : (ofDays n).isValid = true := by
  obtain ⟨era, year, day, hlow, hhigh, hday, hn, heq⟩ := ofDays_eq n
  obtain ⟨month, hmonth⟩ : ∃ m, m = (5 * day + 2) / 153 := ⟨_, rfl⟩
  have hmonths : month < 12 := by omega
  rw [← hmonth] at heq
  have hlong : day ≤ 365 := by
    by_cases hera : year = 399
    · omega
    · have hsameEra : (year + 1) / 400 = 0 := by omega
      omega
  -- The last day of the year is there in leap years only.
  have hleap : day = 365 → isLeap (year + era * 400 + 1) = true := by
    intro hlast
    have hquad : (year + 1) % 4 = 0 := by
      by_contra hne
      have hsame : (year + 1) / 4 = year / 4 := by omega
      have hsameCentury : (year + 1) / 100 = year / 100 := by omega
      have hsameEra : (year + 1) / 400 = 0 := by omega
      omega
    have hcentury : (year + 1) % 100 = 0 → (year + 1) % 400 = 0 := by
      intro hzero
      by_contra hne
      have hnext : (year + 1) / 100 = year / 100 + 1 := by omega
      have hsameEra : (year + 1) / 400 = 0 := by omega
      omega
    rw [isLeap_iff]
    omega
  rw [heq]
  interval_cases month <;> simp [isValid, daysInMonth, daysBeforeMonth]
  case «11» =>
    split
    next => omega
    next hcommon =>
      have : day ≠ 365 := fun hlast => hcommon (hleap hlast)
      omega
  all_goals omega

end DatasetCatalog.Time.Date
