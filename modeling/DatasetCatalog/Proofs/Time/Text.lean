import DatasetCatalog.Proofs.Text.Blank
import DatasetCatalog.Proofs.Text.Digits
import DatasetCatalog.Proofs.Time.Calendar
import DatasetCatalog.Time.Text

/-!
# Timestamps read back

Every instant that a clock can show is read back from its text. Reading goes from left to right and
each part stops where the next one begins, so there is one lemma for each part, followed by
anything.
-/

namespace DatasetCatalog.Timestamp

open Text (decimalChars decimalValue takeWhile_isDigit trimStart isBlank not_isBlank_of_isDigit)

/-- An instant in the range of the calendar, whose nanoseconds pass a whole second only in the last
second of a minute. -/
structure Valid (t : Timestamp) : Prop where
  first : firstDay ≤ t.day
  last : t.day ≤ lastDay
  second : t.second < secondsPerDay
  nano : t.nano < 2 * nanosPerSecond
  leap : nanosPerSecond ≤ t.nano → t.second % 60 = 59

/-! ## Parts of the text -/

theorem trimStart_of_not_isBlank {c : Char} (h : isBlank c = false) (rest : List Char) :
    trimStart (c :: rest) = c :: rest := by
  rw [trimStart, List.dropWhile_cons_of_neg (by simp [h])]

/-- Exactly as many digits as are asked for. -/
theorem number?_of_length {digits : List Char} (hdigits : ∀ c ∈ digits, c.isDigit = true)
    (hne : digits ≠ []) (rest : List Char) :
    number? digits.length (digits ++ rest) = some (decimalValue digits, rest) := by
  have htake := (takeWhile_isDigit hdigits [] nofun).1
  rw [List.append_nil] at htake
  rw [number?, List.take_left, htake, if_neg hne, List.drop_left]

/-- As many digits as there are. -/
theorem number?_of_all {digits : List Char} (hdigits : ∀ c ∈ digits, c.isDigit = true)
    (hne : digits ≠ []) (rest : List Char) (hrest : ∀ c ∈ rest.head?, c.isDigit = false) :
    number? (digits ++ rest).length (digits ++ rest) = some (decimalValue digits, rest) := by
  rw [number?, List.take_length, (takeWhile_isDigit hdigits rest hrest).1, if_neg hne,
    List.drop_left]

theorem decimalChars_succ_ne_nil (width n : Nat) : decimalChars (width + 1) n ≠ [] := by
  rw [decimalChars]
  exact List.append_ne_nil_of_right_ne_nil _ (List.cons_ne_nil _ _)

theorem exists_cons_decimalChars (width n : Nat) :
    ∃ c rest, decimalChars (width + 1) n = c :: rest ∧ c.isDigit = true := by
  obtain ⟨c, rest, hcons⟩ := List.exists_cons_of_ne_nil (decimalChars_succ_ne_nil width n)
  exact ⟨c, rest, hcons, Text.isDigit_of_mem_decimalChars (hcons ▸ List.mem_cons_self)⟩

theorem field?_decimalChars {n : Nat} (hn : n < 100) (rest : List Char) :
    field? (decimalChars 2 n ++ rest) = some (n, rest) := by
  obtain ⟨c, more, hcons, hdigit⟩ := exists_cons_decimalChars 1 n
  have htrim : trimStart (decimalChars 2 n ++ rest) = decimalChars 2 n ++ rest := by
    rw [hcons]
    exact trimStart_of_not_isBlank (not_isBlank_of_isDigit hdigit) _
  have hnumber := number?_of_length (fun c hc => Text.isDigit_of_mem_decimalChars hc)
    (decimalChars_succ_ne_nil 1 n) rest
  rw [Text.length_decimalChars, Text.decimalValue_decimalChars hn] at hnumber
  rw [field?, htrim, hnumber]

theorem separator?_cons {c : Char} (h : isBlank c = false) (rest : List Char) :
    separator? c (c :: rest) = some rest := by
  rw [separator?, trimStart_of_not_isBlank h, literal?, if_pos rfl]

/-- The digits of a year with a sign. -/
theorem decimalValue_padded (n : Nat) :
    decimalValue (List.replicate (4 - (Nat.toDigits 10 n).length) '0' ++ Nat.toDigits 10 n) = n := by
  rw [Text.decimalValue_eq, Nat.ofDigitChars_append, Nat.ofDigitChars_replicate_zero, Nat.mul_zero,
    Nat.ofDigitChars_ten_toDigits]

theorem isDigit_of_mem_padded {n : Nat} {c : Char}
    (h : c ∈ List.replicate (4 - (Nat.toDigits 10 n).length) '0' ++ Nat.toDigits 10 n) :
    c.isDigit = true := by
  rcases List.mem_append.mp h with h | h
  · rw [List.eq_of_mem_replicate h]
    rfl
  · exact Nat.isDigit_of_mem_toDigits (by decide) (by decide) h

theorem year?_minus (rest : List Char) :
    year? ('-' :: rest) = (number? rest.length rest).map fun p => (-(p.1 : Int), p.2) := by
  rw [year?, trimStart_of_not_isBlank (by decide)]
  rfl

theorem year?_plus (rest : List Char) :
    year? ('+' :: rest) = (number? rest.length rest).map fun p => ((p.1 : Int), p.2) := by
  rw [year?, trimStart_of_not_isBlank (by decide)]
  rfl

theorem year?_yearChars (year : Int) (rest : List Char) :
    year? (yearChars year ++ '-' :: rest) = some (year, '-' :: rest) := by
  rw [yearChars]
  split
  next hfour =>
    obtain ⟨c, more, hcons, hdigit⟩ := exists_cons_decimalChars 3 year.toNat
    have hnumber := number?_of_length (fun c hc => Text.isDigit_of_mem_decimalChars hc)
      (decimalChars_succ_ne_nil 3 year.toNat) ('-' :: rest)
    rw [Text.length_decimalChars, Text.decimalValue_decimalChars (by omega), hcons,
      List.cons_append] at hnumber
    rw [hcons, List.cons_append, year?, trimStart_of_not_isBlank (not_isBlank_of_isDigit hdigit)]
    split
    next heq => cases heq; cases hdigit
    next heq => cases heq; cases hdigit
    next =>
      rw [hnumber, Option.map_some]
      dsimp only
      rw [Int.toNat_of_nonneg hfour.1]
  next =>
    have hnumber := number?_of_all (fun c hc => isDigit_of_mem_padded (n := year.natAbs) hc)
      (List.append_ne_nil_of_right_ne_nil _ Nat.toDigits_ne_nil) ('-' :: rest) (by rintro c ⟨⟩; rfl)
    rw [decimalValue_padded] at hnumber
    dsimp only
    split
    next hnegative =>
      rw [List.cons_append, year?_minus, hnumber, Option.map_some,
        show -((year.natAbs : Nat) : Int) = year by omega]
    next hpositive =>
      rw [List.cons_append, year?_plus, hnumber, Option.map_some,
        show ((year.natAbs : Nat) : Int) = year by omega]

/-- Digits up to the ninth, followed by something else. -/
theorem fraction?_of_digits {digits : List Char} (hdigits : ∀ c ∈ digits, c.isDigit = true)
    (hne : digits ≠ []) (hnine : digits.length ≤ 9) :
    fraction? ('.' :: digits ++ ['Z']) =
      some (decimalValue digits * 10 ^ (9 - digits.length), ['Z']) := by
  obtain ⟨htake, hdrop⟩ := takeWhile_isDigit hdigits ['Z'] (by rintro c ⟨⟩; rfl)
  rw [List.cons_append, fraction?]
  dsimp only
  rw [htake, hdrop, if_neg hne, List.take_of_length_le hnine, Nat.pow_eq]

theorem fraction?_fractionChars {nano : Nat} (h : nano < nanosPerSecond) :
    fraction? (fractionChars nano ++ ['Z']) = some (nano, ['Z']) := by
  have hpart : ∀ width unit, 0 < width → width ≤ 9 → nano / unit < 10 ^ width →
      nano / unit * 10 ^ (9 - width) = nano →
      fraction? ('.' :: decimalChars width (nano / unit) ++ ['Z']) = some (nano, ['Z']) := by
    intro width unit hpos hnine hlt hback
    obtain ⟨width, rfl⟩ := Nat.exists_eq_add_of_lt hpos
    rw [fraction?_of_digits (fun c hc => Text.isDigit_of_mem_decimalChars hc)
      (by rw [Nat.zero_add]; exact decimalChars_succ_ne_nil width _)
      (by rw [Text.length_decimalChars]; exact hnine), Text.decimalValue_decimalChars hlt,
      Text.length_decimalChars, hback]
  rw [nanosPerSecond] at h
  rw [fractionChars]
  split
  next hzero =>
    rw [hzero]
    rfl
  next =>
    split
    next => exact hpart 3 1000000 (by decide) (by decide) (by omega) (by omega)
    next =>
      split
      next => exact hpart 6 1000 (by decide) (by decide) (by omega) (by omega)
      next =>
        have hnine := hpart 9 1 (by decide) (by decide) (by omega) (by omega)
        rwa [Nat.div_one] at hnine

/-! ## The whole text -/

theorem date_bounds (n : Int) :
    (Time.Date.ofDays n).month < 100 ∧ (Time.Date.ofDays n).day < 100 := by
  have hvalid := Time.Date.isValid_ofDays n
  simp only [Time.Date.isValid, Bool.and_eq_true, decide_eq_true_eq] at hvalid
  have hdays : Time.Date.daysInMonth (Time.Date.ofDays n).year (Time.Date.ofDays n).month ≤ 31 := by
    simp only [Time.Date.daysInMonth]
    split
    next => split <;> decide
    all_goals decide
  omega

theorem bind_eq_some_of {α β : Type} {x : Option α} {f : α → Option β} {a : α} {b : β}
    (hx : x = some a) (hf : f a = some b) : (x >>= f) = some b := by
  rw [hx]
  exact hf

/-- What is made of the parts, none of which leaves anything over. -/
theorem parse?_of_parts {cs r₁ r₂ r₃ r₄ r₅ r₆ r₇ r₈ r₉ r₁₀ : List Char} {date : Time.Date}
    {hour minute second nano : Nat} {t : Timestamp} (hyear : year? cs = some (date.year, r₁))
    (h₂ : separator? '-' r₁ = some r₂) (hmonth : field? r₂ = some (date.month, r₃))
    (h₄ : separator? '-' r₃ = some r₄) (hday : field? r₄ = some (date.day, 'T' :: r₅))
    (hhour : field? r₅ = some (hour, r₆)) (h₇ : separator? ':' r₆ = some r₇)
    (hminute : field? r₇ = some (minute, r₈)) (h₉ : separator? ':' r₈ = some r₉)
    (hsecond : field? r₉ = some (second, r₁₀)) (hnano : fraction? r₁₀ = some (nano, ['Z']))
    (hdate : date.isValid = true) (hfirst : firstDay ≤ date.toDays) (hlast : date.toDays ≤ lastDay)
    (hhours : hour < 24) (hminutes : minute < 60) (hseconds : second ≤ 60)
    (ht : ofSeconds? date.toDays
      ((hour * 3600 + minute * 60 + (if second == 60 then 59 else second) : Nat) - 0 : Int)
      (if second == 60 then nano + nanosPerSecond else nano) = some t) :
    parse? (String.ofList cs) = some t := by
  have hoffset : offset? (trimStart ['Z']) = some (0, []) := by decide
  have hknown : (date.isValid && decide (hour < 24) && decide (minute < 60) &&
      decide (second ≤ 60) && decide (Int.natAbs 0 < secondsPerDay) &&
      (trimStart ([] : List Char)).isEmpty) = true := by
    simp only [hdate, hhours, hminutes, hseconds, decide_true, Bool.and_true, Bool.true_and]
    rfl
  rw [parse?, String.toList_ofList]
  refine bind_eq_some_of hyear (bind_eq_some_of h₂ (bind_eq_some_of hmonth ?_))
  refine bind_eq_some_of h₄ (bind_eq_some_of hday (bind_eq_some_of rfl ?_))
  refine bind_eq_some_of hhour ?_
  refine bind_eq_some_of h₇ (bind_eq_some_of hminute (bind_eq_some_of h₉ ?_))
  refine bind_eq_some_of hsecond (bind_eq_some_of hnano (bind_eq_some_of hoffset ?_))
  exact (if_pos ⟨hknown, hfirst, hlast⟩).trans ht

theorem parse?_text {t : Timestamp} (h : t.Valid) : parse? t.text = some t := by
  obtain ⟨hmonth, hday⟩ := date_bounds t.day
  have hsecond := h.second
  have hnano := h.nano
  have hleap := h.leap
  rw [secondsPerDay] at hsecond
  rw [nanosPerSecond] at hnano hleap
  have hfraction : t.nano % nanosPerSecond < nanosPerSecond := Nat.mod_lt _ (by decide)
  have hback := Time.Date.toDays_ofDays t.day
  rw [text, chars]
  simp only [List.append_assoc, List.cons_append]
  refine parse?_of_parts (year?_yearChars _ _) (separator?_cons (by decide) _)
    (field?_decimalChars hmonth _) (separator?_cons (by decide) _) (field?_decimalChars hday _)
    (field?_decimalChars (by omega) _) (separator?_cons (by decide) _)
    (field?_decimalChars (by omega) _) (separator?_cons (by decide) _)
    (field?_decimalChars (by rw [nanosPerSecond]; omega) _) (fraction?_fractionChars hfraction)
    (Time.Date.isValid_ofDays t.day) (by rw [hback]; exact h.first) (by rw [hback]; exact h.last)
    (by omega) (by omega) (by rw [nanosPerSecond]; omega) ?_
  -- A leap second is written as a sixtieth second, and nothing else is.
  have hclock : t.second / 3600 * 3600 + t.second / 60 % 60 * 60 +
      (if t.second % 60 + t.nano / nanosPerSecond == 60 then 59
        else t.second % 60 + t.nano / nanosPerSecond) = t.second := by
    rw [nanosPerSecond]
    split
    next hsixty =>
      have := beq_iff_eq.mp hsixty
      omega
    next hother =>
      have := mt beq_iff_eq.mpr hother
      omega
  have hfractions : (if t.second % 60 + t.nano / nanosPerSecond == 60
      then t.nano % nanosPerSecond + nanosPerSecond else t.nano % nanosPerSecond) = t.nano := by
    rw [nanosPerSecond]
    split
    next hsixty =>
      have := beq_iff_eq.mp hsixty
      omega
    next hother =>
      have := mt beq_iff_eq.mpr hother
      omega
  have hday : (t.second : Int).fdiv (secondsPerDay : Nat) = 0 := by
    rw [secondsPerDay, Int.fdiv_eq_ediv_of_nonneg _ (by decide)]
    omega
  have hrest : ((t.second : Int).fmod (secondsPerDay : Nat)).toNat = t.second := by
    rw [secondsPerDay, Int.fmod_eq_emod_of_nonneg _ (by decide)]
    omega
  rw [hback, hclock, hfractions, Int.sub_zero, ofSeconds?]
  simp only [hday, hrest, Int.add_zero]
  exact if_pos ⟨h.first, h.last⟩

end DatasetCatalog.Timestamp
