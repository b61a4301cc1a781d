import DatasetCatalog.Json.Numeral
import DatasetCatalog.Proofs.Number.Shortest
import DatasetCatalog.Proofs.Text.Digits

/-!
# Numbers read back

Every number is written as a numeral, which is parsed from its own text (`parse?_chars`). An
integer is the number of its numeral. A binary64 number is read in two roundings and need not be:
`Number.ReadsBack` says when it is.
-/

namespace DatasetCatalog

namespace Json.Numeral

/-! ## Numerals and their text -/

def fractionChars : Option (List Char) → List Char
  | none => []
  | some digits => '.' :: digits

def exponentChars : Option (Bool × List Char) → List Char
  | none => []
  | some (true, digits) => 'e' :: '-' :: digits
  | some (false, digits) => 'e' :: '+' :: digits

/-- The text of a numeral. -/
def chars (n : Numeral) : List Char :=
  (if n.negative then ['-'] else []) ++ (n.whole ++ (fractionChars n.fraction ++
    exponentChars n.exponent))

/-- At least one digit and nothing else. -/
def Digits (digits : List Char) : Prop := digits ≠ [] ∧ ∀ c ∈ digits, c.isDigit = true

/-- Each part has digits, and no zero stands before other whole digits. -/
structure WellFormed (n : Numeral) : Prop where
  whole : Digits n.whole
  leading : n.whole.length = 1 ∨ n.whole.head? ≠ some '0'
  fraction : ∀ digits ∈ n.fraction, Digits digits
  exponent : ∀ e ∈ n.exponent, Digits e.2

theorem parseExponent?_exponentChars {exponent : Option (Bool × List Char)}
    (h : ∀ e ∈ exponent, Digits e.2) : parseExponent? (exponentChars exponent) = some exponent := by
  rcases exponent with _ | ⟨_ | _, digits⟩
  · rfl
  all_goals
    obtain ⟨hne, hall⟩ := h _ rfl
    rw [exponentChars, parseExponent?, if_pos (.inl rfl)]
    exact if_pos ⟨hne, List.all_eq_true.mpr hall⟩

theorem head?_exponentChars {exponent : Option (Bool × List Char)} {c : Char}
    (h : c ∈ (exponentChars exponent).head?) : c = 'e' := by
  rcases exponent with _ | ⟨_ | _, digits⟩ <;> cases h <;> rfl

theorem isDigit_head?_rest {fraction : Option (List Char)} {exponent : Option (Bool × List Char)} :
    ∀ c ∈ (fractionChars fraction ++ exponentChars exponent).head?, c.isDigit = false := by
  intro c hc
  cases fraction with
  | none =>
      rw [head?_exponentChars hc]
      rfl
  | some digits =>
      cases hc
      rfl

/-- The fraction and the exponent, after the whole digits. -/
def parseRest? (negative : Bool) (whole : List Char) : List Char → Option Numeral
  | '.' :: rest =>
    if rest.takeWhile Char.isDigit = [] then none
    else (parseExponent? (rest.dropWhile Char.isDigit)).map
      (⟨negative, whole, some (rest.takeWhile Char.isDigit), ·⟩)
  | rest => (parseExponent? rest).map (⟨negative, whole, none, ·⟩)

theorem parseRest?_chars {negative : Bool} {whole : List Char} {fraction : Option (List Char)}
    {exponent : Option (Bool × List Char)} (hfraction : ∀ digits ∈ fraction, Digits digits)
    (hexponent : ∀ e ∈ exponent, Digits e.2) :
    parseRest? negative whole (fractionChars fraction ++ exponentChars exponent) =
      some ⟨negative, whole, fraction, exponent⟩ := by
  have hparsed := parseExponent?_exponentChars hexponent
  cases fraction with
  | none =>
      rw [fractionChars, List.nil_append, parseRest?, hparsed]
      · rfl
      · rintro rest heq
        have hhead := @head?_exponentChars exponent '.' (by rw [heq]; rfl)
        cases hhead
  | some digits =>
      obtain ⟨hne, hall⟩ := hfraction digits rfl
      obtain ⟨htake, hdrop⟩ := Text.takeWhile_isDigit hall (exponentChars exponent)
        fun c hc => head?_exponentChars hc ▸ rfl
      rw [fractionChars, List.cons_append, parseRest?, htake, hdrop, if_neg hne, hparsed]
      rfl

/-- The digits that a sign may precede. -/
theorem parse?_signed (negative : Bool) {whole tail : List Char} (hwhole : Digits whole)
    (hleading : whole.length = 1 ∨ whole.head? ≠ some '0')
    (htail : ∀ c ∈ tail.head?, c.isDigit = false) :
    parse? ((if negative then ['-'] else []) ++ (whole ++ tail)) =
      parseRest? negative whole tail := by
  obtain ⟨htake, hdrop⟩ := Text.takeWhile_isDigit hwhole.2 tail htail
  have hcheck : ¬ (whole = [] ∨ (whole.length ≠ 1 ∧ whole.head? = some '0')) := by
    rintro (hnil | ⟨hlength, hzero⟩)
    · exact hwhole.1 hnil
    · exact hleading.elim hlength fun hne => hne hzero
  cases negative with
  | true =>
      change parse? ('-' :: (whole ++ tail)) = _
      rw [parse?, htake, hdrop, if_neg hcheck]
      rfl
  | false =>
      change parse? (whole ++ tail) = _
      rw [parse?, htake, hdrop, if_neg hcheck]
      · rfl
      · rintro rest heq
        obtain ⟨c, more, rfl⟩ := List.exists_cons_of_ne_nil hwhole.1
        cases heq
        cases hwhole.2 '-' List.mem_cons_self

/-- A numeral is parsed from its own text. -/
theorem parse?_chars {n : Numeral} (h : n.WellFormed) : parse? n.chars = some n := by
  rw [chars, parse?_signed n.negative h.whole h.leading isDigit_head?_rest,
    parseRest?_chars h.fraction h.exponent]

theorem isChar_of_isDigit {c : Char} (h : c.isDigit = true) : isChar c = true := by
  simp [isChar, h]

/-- A numeral is made of its own characters. -/
theorem isChar_of_mem_chars {n : Numeral} (h : n.WellFormed) {c : Char} (hc : c ∈ n.chars) :
    isChar c = true := by
  obtain ⟨negative, whole, fraction, exponent⟩ := n
  simp only [chars, List.mem_append] at hc
  rcases hc with hc | hc | hc | hc
  · cases negative with
    | true => rw [List.mem_singleton.mp hc]; rfl
    | false => cases hc
  · exact isChar_of_isDigit (h.whole.2 c hc)
  · cases fraction with
    | none => cases hc
    | some digits =>
        rcases List.mem_cons.mp hc with rfl | hc
        · rfl
        · exact isChar_of_isDigit ((h.fraction digits rfl).2 c hc)
  · rcases exponent with _ | ⟨_ | _, digits⟩
    · cases hc
    all_goals
      rcases List.mem_cons.mp hc with rfl | hc
      · rfl
      rcases List.mem_cons.mp hc with rfl | hc
      · rfl
      exact isChar_of_isDigit ((h.exponent _ rfl).2 c hc)

/-- A numeral starts with a digit or a minus sign. -/
theorem exists_cons_chars {n : Numeral} (h : n.WellFormed) :
    ∃ c rest, n.chars = c :: rest ∧ (c.isDigit = true ∨ c = '-') := by
  obtain ⟨negative, whole, fraction, exponent⟩ := n
  cases negative with
  | true => exact ⟨'-', _, rfl, .inr rfl⟩
  | false =>
      obtain ⟨hne, hall⟩ := h.whole
      obtain ⟨c, rest, rfl⟩ := List.exists_cons_of_ne_nil hne
      exact ⟨c, _, rfl, .inl (hall c List.mem_cons_self)⟩

/-! ## The text of a number is a numeral -/

open NumberFormat (zeros positional exponential)

theorem digits_toDigits (n : Nat) : Digits (Nat.toDigits 10 n) :=
  ⟨Nat.toDigits_ne_nil, fun _ hc => Nat.isDigit_of_mem_toDigits (by decide) (by decide) hc⟩

theorem digits_zero : Digits ['0'] :=
  ⟨List.cons_ne_nil _ _, fun _ hc => List.mem_singleton.mp hc ▸ rfl⟩

theorem isDigit_of_mem_zeros {n : Nat} {c : Char} (h : c ∈ zeros n) : c.isDigit = true := by
  rw [List.eq_of_mem_replicate h]
  rfl

section Digits

variable {digits : List Char} (hdigits : Digits digits) (hhead : digits.head? ≠ some '0')

include hdigits hhead

theorem exists_positional (negative : Bool) (leading : Int) : ∃ n : Numeral, n.WellFormed ∧
    n.chars = (if negative then ['-'] else []) ++ positional digits leading := by
  obtain ⟨hne, hall⟩ := hdigits
  by_cases hlow : leading < 0
  · rw [positional, if_pos hlow]
    refine ⟨⟨negative, ['0'], some (zeros (-leading - 1).toNat ++ digits), none⟩,
      ⟨?_, .inl rfl, ?_, nofun⟩, ?_⟩
    · exact digits_zero
    · rintro _ ⟨⟩
      refine ⟨List.append_ne_nil_of_right_ne_nil _ hne, fun c hc => ?_⟩
      exact (List.mem_append.mp hc).elim isDigit_of_mem_zeros (hall c)
    · simp [chars, fractionChars, exponentChars]
  rw [positional, if_neg hlow]
  by_cases hshort : digits.length ≤ leading.toNat + 1
  · rw [if_pos hshort]
    refine ⟨⟨negative, digits ++ zeros (leading.toNat + 1 - digits.length), some ['0'], none⟩,
      ⟨?_, .inr ?_, ?_, nofun⟩, ?_⟩
    · refine ⟨List.append_ne_nil_of_left_ne_nil hne _, fun c hc => ?_⟩
      exact (List.mem_append.mp hc).elim (hall c) isDigit_of_mem_zeros
    · obtain ⟨c, rest, rfl⟩ := List.exists_cons_of_ne_nil hne
      exact hhead
    · rintro _ ⟨⟩
      exact digits_zero
    · simp [chars, fractionChars, exponentChars]
  · rw [if_neg hshort]
    refine ⟨⟨negative, digits.take (leading.toNat + 1),
      some (digits.drop (leading.toNat + 1)), none⟩, ⟨?_, .inr ?_, ?_, nofun⟩, ?_⟩
    · obtain ⟨c, rest, rfl⟩ := List.exists_cons_of_ne_nil hne
      exact ⟨List.cons_ne_nil _ _, fun d hd => hall d (List.mem_of_mem_take hd)⟩
    · obtain ⟨c, rest, rfl⟩ := List.exists_cons_of_ne_nil hne
      exact hhead
    · rintro _ ⟨⟩
      refine ⟨fun hnil => hshort (List.drop_eq_nil_iff.mp hnil), fun d hd => ?_⟩
      exact hall d (List.mem_of_mem_drop hd)
    · simp [chars, fractionChars, exponentChars]

theorem exists_exponential (negative : Bool) (leading : Int) : ∃ n : Numeral, n.WellFormed ∧
    n.chars = (if negative then ['-'] else []) ++
      exponential NumberFormat.document digits leading := by
  obtain ⟨c, rest, rfl⟩ := List.exists_cons_of_ne_nil hdigits.1
  have hc : Digits [c] :=
    ⟨List.cons_ne_nil _ _, fun d hd => hdigits.2 d (List.mem_singleton.mp hd ▸ List.mem_cons_self)⟩
  have hexponent : ∀ e ∈ some (decide (leading < 0), Nat.toDigits 10 leading.natAbs),
      Digits e.2 := by
    rintro _ ⟨⟩
    exact digits_toDigits _
  cases rest with
  | nil =>
      refine ⟨⟨negative, [c], none, _⟩, ⟨hc, .inl rfl, nofun, hexponent⟩, ?_⟩
      by_cases hleading : leading < 0 <;>
        simp [chars, fractionChars, exponentChars, exponential, NumberFormat.document, hleading]
  | cons d rest =>
      refine ⟨⟨negative, [c], some (d :: rest), _⟩, ⟨hc, .inl rfl, ?_, hexponent⟩, ?_⟩
      · rintro _ ⟨⟩
        exact ⟨List.cons_ne_nil _ _, fun e he => hdigits.2 e (List.mem_cons_of_mem _ he)⟩
      · by_cases hleading : leading < 0 <;>
          simp [chars, fractionChars, exponentChars, exponential, NumberFormat.document, hleading]

end Digits

/-- The numeral of an integer. -/
def ofInt (n : Int) : Numeral := ⟨decide (n < 0), Nat.toDigits 10 n.natAbs, none, none⟩

theorem wellFormed_ofInt (n : Int) : (ofInt n).WellFormed := by
  refine ⟨digits_toDigits _, ?_, nofun, nofun⟩
  by_cases hn : n = 0
  · exact .inl (hn ▸ rfl)
  · exact .inr (Text.head?_toDigits (Int.natAbs_ne_zero.mpr hn))

theorem chars_ofInt (n : Int) : (ofInt n).chars = NumberFormat.integer n := by
  by_cases hn : n < 0 <;>
    simp [chars, ofInt, NumberFormat.integer, fractionChars, exponentChars, hn]

theorem exists_float (x : Binary64) :
    ∃ n : Numeral, n.WellFormed ∧ n.chars = NumberFormat.document.float x := by
  rw [NumberFormat.float]
  cases hzero : x.isZero with
  | true =>
      refine ⟨⟨x.negative, ['0'], some ['0'], none⟩, ⟨digits_zero, .inl rfl, ?_, nofun⟩, rfl⟩
      rintro _ ⟨⟩
      exact digits_zero
  | false =>
      have hdigits : Digits x.shortest.text := digits_toDigits _
      have hhead : x.shortest.text.head? ≠ some '0' :=
        Text.head?_toDigits (Binary64.digits_shortest_ne_zero hzero)
      dsimp only
      rw [if_neg Bool.false_ne_true]
      by_cases hrange : NumberFormat.document.leastPositional ≤ x.shortest.leading ∧
          x.shortest.leading < NumberFormat.document.positionalEnd
      · rw [if_pos hrange]
        exact exists_positional hdigits hhead _ _
      · rw [if_neg hrange]
        exact exists_exponential hdigits hhead _ _

/-- A number of any kind is written as a numeral. -/
theorem exists_chars (n : Number) :
    ∃ m : Numeral, m.WellFormed ∧ m.chars = NumberFormat.document.chars n := by
  cases n with
  | integer n _ => exact ⟨ofInt n, wellFormed_ofInt n, chars_ofInt n⟩
  | float x => exact exists_float x

/-! ## Integers are read back -/

theorem le_ofDigitChars (digits : List Char) (n : Nat) : n ≤ Nat.ofDigitChars 10 digits n := by
  induction digits generalizing n with
  | nil => exact Nat.le_refl n
  | cons c rest ih =>
      rw [Nat.ofDigitChars_cons]
      have hrest := ih (10 * n + (c.toNat - '0'.toNat))
      omega

/-- Digits of a number of 64 bits are gathered to the last. -/
theorem gather_eq {digits : List Char} {n : Nat}
    (h : Nat.ofDigitChars 10 digits n < 2 ^ 64) :
    gather n digits = (Nat.ofDigitChars 10 digits n, 0) := by
  induction digits generalizing n with
  | nil => rfl
  | cons c rest ih =>
      rw [Nat.ofDigitChars_cons, Nat.mul_comm] at h ⊢
      rw [gather, Nat.pow_eq, if_pos (Nat.lt_of_le_of_lt (le_ofDigitChars rest _) h), ih h]

theorem number?_ofInt {n : Int} (h : Number.leastSigned ≤ n ∧ n < Number.unsignedBound) :
    (ofInt n).number? = some (.integer n h) := by
  have habs : n.natAbs < 2 ^ 64 := by
    simp only [Number.leastSigned, Number.unsignedBound] at h
    omega
  have hgather : gather 0 (Nat.toDigits 10 n.natAbs) = (n.natAbs, 0) := by
    have hvalue := Nat.ofDigitChars_ten_toDigits (n := n.natAbs)
    rw [gather_eq (by rwa [hvalue]), hvalue]
  have hsign : (!decide (n < 0)) = true ∨ (n.natAbs ≠ 0 ∧ n.natAbs ≤ Nat.pow 2 63) := by
    simp only [Number.leastSigned, Nat.pow_eq] at h ⊢
    by_cases hn : n < 0
    · right; omega
    · left; simpa using hn
  have hvalue : (if decide (n < 0) then -(n.natAbs : Int) else n.natAbs) = n := by
    simp only [decide_eq_true_eq]
    split <;> omega
  rw [number?]
  simp only [ofInt, hgather]
  calc
    _ = Number.ofInt? (if decide (n < 0) then -(n.natAbs : Int) else n.natAbs) :=
      if_pos ⟨trivial, hsign⟩
    _ = some (.integer n h) := by rw [hvalue, Number.ofInt?, dif_pos h]

end Json.Numeral

namespace Number

/-- What the text of a number is read as. -/
def reread? (n : Number) : Option Number :=
  (Json.Numeral.parse? (NumberFormat.document.chars n)).bind Json.Numeral.number?

/-- The text of the number is read as this number again. -/
def ReadsBack (n : Number) : Prop := n.reread? = some n

theorem readsBack_integer {n : Int} (h : leastSigned ≤ n ∧ n < unsignedBound) :
    (integer n h).ReadsBack := by
  rw [ReadsBack, reread?, NumberFormat.chars, ← Json.Numeral.chars_ofInt,
    Json.Numeral.parse?_chars (Json.Numeral.wellFormed_ofInt n)]
  exact Json.Numeral.number?_ofInt h

-- Not so a float: of `90.32892184011071` the reader's two roundings make the next number.
example : (float ⟨false, 6356332792810957, -46, by decide⟩).reread? =
    some (float ⟨false, 6356332792810958, -46, by decide⟩) := by
  decide +kernel

end Number

end DatasetCatalog
