import DatasetCatalog.Proofs.Time.Text

/-!
# Windows of time

Whether an instant lies within a window is decided by moving the middle of the window both ways,
which may lead out of the calendar or out of a leap second. Away from leap seconds the answer is
that of arithmetic on nanoseconds, however wide the window is.
-/

namespace DatasetCatalog.Timestamp

/-- Nanoseconds since the first day of the count of days. -/
def nanos (t : Timestamp) : Int := (t.day * secondsPerDay + t.second) * nanosPerSecond + t.nano

/-- The first instant of the calendar. -/
def calendarStart : Int := firstDay * secondsPerDay * nanosPerSecond

/-- The end of the calendar's last day. -/
def calendarEnd : Int := (lastDay + 1) * secondsPerDay * nanosPerSecond

variable {s t target : Timestamp} {tolerance : Duration}

theorem le_iff : s.le t = true ↔ s.day < t.day ∨ (s.day = t.day ∧ (s.second < t.second ∨
    (s.second = t.second ∧ s.nano ≤ t.nano))) := by
  simp [le]

theorem le_iff_nanos (hs : s.second < secondsPerDay) (ht : t.second < secondsPerDay)
    (hsnano : s.nano < nanosPerSecond) (htnano : t.nano < nanosPerSecond) :
    s.le t = true ↔ s.nanos ≤ t.nanos := by
  rw [le_iff]
  simp only [nanos, secondsPerDay, nanosPerSecond] at *
  omega

theorem nano_lt_of_not_leap (h : t.isLeapSecond = false) : t.nano < nanosPerSecond :=
  Nat.lt_of_not_le (decide_eq_false_iff_not.mp h)

theorem nanos_mem_calendar (h : t.Valid) (hleap : t.isLeapSecond = false) :
    calendarStart ≤ t.nanos ∧ t.nanos < calendarEnd := by
  have hnano := nano_lt_of_not_leap hleap
  have hfirst := h.first
  have hlast := h.last
  have hsecond := h.second
  simp only [nanos, calendarStart, calendarEnd, secondsPerDay, nanosPerSecond] at *
  omega

/-! ## Moving an instant -/

theorem ofSeconds?_eq_some {day seconds : Int} {nano : Nat}
    (h : ofSeconds? day seconds nano = some s) :
    s.day * secondsPerDay + s.second = day * secondsPerDay + seconds ∧
      s.second < secondsPerDay ∧ s.nano = nano := by
  rw [ofSeconds?] at h
  split at h
  next =>
    cases h
    rw [Int.fdiv_eq_ediv_of_nonneg _ (Int.natCast_nonneg _),
      Int.fmod_eq_emod_of_nonneg _ (Int.natCast_nonneg _)]
    refine ⟨?_, ?_, rfl⟩
    · simp only [secondsPerDay, Nat.cast_ofNat]
      omega
    · simp only [secondsPerDay, Nat.cast_ofNat]
      omega
  next => cases h

/-- Only a move out of the calendar leads nowhere. -/
theorem ofSeconds?_eq_none {day seconds : Int} {nano : Nat}
    (h : ofSeconds? day seconds nano = none) :
    day * secondsPerDay + seconds < firstDay * secondsPerDay ∨
      (lastDay + 1) * secondsPerDay ≤ day * secondsPerDay + seconds := by
  rw [ofSeconds?] at h
  split at h
  next => cases h
  next hout =>
    rw [Int.fdiv_eq_ediv_of_nonneg _ (Int.natCast_nonneg _)] at hout
    simp only [secondsPerDay] at *
    omega

theorem ofNanos?_eq_some {day seconds nanos : Int} (h : ofNanos? day seconds nanos = some s) :
    s.nanos = (day * secondsPerDay + seconds) * nanosPerSecond + nanos ∧
      s.second < secondsPerDay ∧ s.nano < nanosPerSecond := by
  obtain ⟨hseconds, hsecond, hnano⟩ := ofSeconds?_eq_some h
  rw [Int.fdiv_eq_ediv_of_nonneg _ (Int.natCast_nonneg _)] at hseconds
  rw [Int.fmod_eq_emod_of_nonneg _ (Int.natCast_nonneg _)] at hnano
  simp only [Timestamp.nanos, secondsPerDay, nanosPerSecond] at *
  omega

theorem ofNanos?_eq_none {day seconds nanos : Int} (h : ofNanos? day seconds nanos = none) :
    (day * secondsPerDay + seconds) * nanosPerSecond + nanos < calendarStart ∨
      calendarEnd ≤ (day * secondsPerDay + seconds) * nanosPerSecond + nanos := by
  have hout := ofSeconds?_eq_none h
  rw [Int.fdiv_eq_ediv_of_nonneg _ (Int.natCast_nonneg _)] at hout
  simp only [calendarStart, calendarEnd, secondsPerDay, nanosPerSecond] at *
  omega

/-- Away from leap seconds an instant that has been moved has its nanoseconds moved. -/
theorem addNanos?_eq_some {n : Int} (hleap : t.isLeapSecond = false)
    (h : t.addNanos? n = some s) :
    s.nanos = t.nanos + n ∧ s.second < secondsPerDay ∧ s.nano < nanosPerSecond := by
  rw [addNanos?, hleap, if_neg Bool.false_ne_true] at h
  obtain ⟨hnanos, hregular⟩ := ofNanos?_eq_some h
  exact ⟨by rw [hnanos, nanos, add_assoc], hregular⟩

theorem addNanos?_eq_none {n : Int} (hleap : t.isLeapSecond = false)
    (h : t.addNanos? n = none) : t.nanos + n < calendarStart ∨ calendarEnd ≤ t.nanos + n := by
  rw [addNanos?, hleap, if_neg Bool.false_ne_true] at h
  rw [nanos, add_assoc]
  exact ofNanos?_eq_none h

/-! ## Windows -/

theorem isNear_eq_true_iff : t.isNear target tolerance = true ↔
    (∀ start, target.addNanos? (-tolerance.nanos) = some start → start.le t = true) ∧
      ∀ finish, target.addNanos? tolerance.nanos = some finish → t.le finish = true := by
  rw [isNear, Bool.and_eq_true]
  cases target.addNanos? (-tolerance.nanos) <;> cases target.addNanos? tolerance.nanos <;> simp

section Regular

variable (ht : t.Valid) (htarget : target.Valid) (htleap : t.isLeapSecond = false)
  (hleap : target.isLeapSecond = false)
include ht htarget htleap hleap

/-- A window that starts before the calendar leaves nothing of it out. -/
theorem start_le_iff :
    (∀ start, target.addNanos? (-tolerance.nanos) = some start → start.le t = true) ↔
      target.nanos - tolerance.nanos ≤ t.nanos := by
  cases hmoved : target.addNanos? (-tolerance.nanos) with
  | some start =>
      obtain ⟨hnanos, hsecond, hnano⟩ := addNanos?_eq_some hleap hmoved
      have hle := le_iff_nanos hsecond ht.second hnano (nano_lt_of_not_leap htleap)
      simp [hle, hnanos, sub_eq_add_neg]
  | none =>
      have hout := addNanos?_eq_none hleap hmoved
      have hfirst := (nanos_mem_calendar ht htleap).1
      have hlast := (nanos_mem_calendar htarget hleap).2
      simp only [reduceCtorEq, false_implies, implies_true, true_iff]
      omega

theorem le_finish_iff :
    (∀ finish, target.addNanos? tolerance.nanos = some finish → t.le finish = true) ↔
      t.nanos ≤ target.nanos + tolerance.nanos := by
  cases hmoved : target.addNanos? tolerance.nanos with
  | some finish =>
      obtain ⟨hnanos, hsecond, hnano⟩ := addNanos?_eq_some hleap hmoved
      have hle := le_iff_nanos ht.second hsecond (nano_lt_of_not_leap htleap) hnano
      simp [hle, hnanos]
  | none =>
      have hout := addNanos?_eq_none hleap hmoved
      have hlast := (nanos_mem_calendar ht htleap).2
      have hfirst := (nanos_mem_calendar htarget hleap).1
      simp only [reduceCtorEq, false_implies, implies_true, true_iff]
      omega

/-- Instants of the calendar that are not in a leap second are near if they are at most the
tolerance apart. -/
theorem isNear_iff_nanos : t.isNear target tolerance = true ↔
    |t.nanos - target.nanos| ≤ tolerance.nanos := by
  rw [isNear_eq_true_iff, start_le_iff ht htarget htleap hleap,
    le_finish_iff ht htarget htleap hleap, abs_le]
  constructor
  · rintro ⟨hstart, hfinish⟩
    exact ⟨by omega, by omega⟩
  · rintro ⟨hstart, hfinish⟩
    exact ⟨by omega, by omega⟩

end Regular

/-- Moving a leap second back leads to an earlier instant, moving it on to a later one. -/
theorem addNanos?_of_leap {n : Int} (ht : t.Valid) (hleap : t.isLeapSecond = true)
    (h : t.addNanos? n = some s) : (n ≤ 0 → s.le t = true) ∧ (0 ≤ n → t.le s = true) := by
  have hsecond := ht.second
  have hnano := ht.nano
  have hstart : nanosPerSecond ≤ t.nano := of_decide_eq_true hleap
  rw [addNanos?, if_pos hleap] at h
  rw [le_iff, le_iff]
  split at h
  next hforwards =>
    obtain ⟨hnanos, hless, hfraction⟩ := ofNanos?_eq_some h
    simp only [nanos, secondsPerDay, nanosPerSecond] at *
    exact ⟨fun _ => by omega, fun _ => by omega⟩
  next hnotforwards =>
    split at h
    next hbackwards =>
      obtain ⟨hnanos, hless, hfraction⟩ := ofNanos?_eq_some h
      simp only [nanos, secondsPerDay, nanosPerSecond] at *
      exact ⟨fun _ => by omega, fun _ => by omega⟩
    next hnotbackwards =>
      cases h
      have hstays : 0 ≤ t.nano + n := by
        rw [nanosPerSecond] at *
        omega
      exact ⟨fun hle => .inr ⟨rfl, .inr ⟨rfl, by dsimp only; omega⟩⟩,
        fun hle => .inr ⟨rfl, .inr ⟨rfl, by dsimp only; omega⟩⟩⟩

/-- An instant lies within every window around it. -/
theorem isNear_self (h : t.Valid) (tolerance : Duration) : t.isNear t tolerance = true := by
  cases hleap : t.isLeapSecond with
  | false =>
      rw [isNear_iff_nanos h h hleap hleap, sub_self, abs_zero]
      positivity
  | true =>
      rw [isNear_eq_true_iff]
      constructor
      · intro start hstart
        exact (addNanos?_of_leap h hleap hstart).1 (by omega)
      · intro finish hfinish
        exact (addNanos?_of_leap h hleap hfinish).2 (by omega)

end DatasetCatalog.Timestamp
