import DatasetCatalog.Document.Basic
import DatasetCatalog.Proofs.Outcome
import DatasetCatalog.Proofs.Text.Blank
import DatasetCatalog.Proofs.Text.Digits

/-!
# Dotted texts read back

Splitting a text at its dots undoes joining the texts of the steps as long as none of them has a
dot. So a path is read back from its text if each step is read back from its own and no blanks stand
where trimming would drop them. `Legible` says exactly this of a path. Every path that is read from
some text is legible, which is why reading a text twice gives what reading it once gives.
-/

namespace DatasetCatalog

/-- What a segment can say: a key that is not empty, has no dot and does not look like an index, or
an index of at most 64 bits. -/
def Step.Legible : Step → Prop
  | .key k => k ≠ "" ∧ '.' ∉ k.toList ∧ k.toList.all Char.isDigit = false
  | .index i => i < Nat.pow 2 64

instance : (s : Step) → Decidable s.Legible
  | .key k =>
    inferInstanceAs (Decidable (k ≠ "" ∧ '.' ∉ k.toList ∧ k.toList.all Char.isDigit = false))
  | .index i => inferInstanceAs (Decidable (i < Nat.pow 2 64))

namespace FieldPath

/-- Every step can be said by a segment, a key that comes first does not start with a blank, and a
key that comes last does not end with one. -/
structure Legible (p : FieldPath) : Prop where
  steps : ∀ s ∈ p, s.Legible
  first : ∀ k ∈ p.head?.bind Step.key?, ∀ c ∈ k.toList.head?, Text.isBlank c = false
  last : ∀ k ∈ p.getLast?.bind Step.key?, ∀ c ∈ k.toList.getLast?, Text.isBlank c = false

end FieldPath

/-! ## Segments -/

namespace Step

variable {s : Step}

theorem all_isDigit_toDigits (i : Nat) : (Nat.toDigits 10 i).all Char.isDigit = true :=
  List.all_eq_true.mpr fun _ hc => Nat.isDigit_of_mem_toDigits (by decide) (by decide) hc

theorem key?_eq_some {k : String} (h : s.key? = some k) : s = .key k := by
  cases s with
  | key l => cases h; rfl
  | index i => cases h

theorem chars_ne_nil (h : s.Legible) : s.chars ≠ [] := by
  cases s with
  | key k => exact fun hnil => h.1 (String.toList_eq_nil_iff.mp hnil)
  | index i => exact Nat.toDigits_ne_nil

theorem not_isBlank_of_index {i : Nat} {c : Char} (h : c ∈ (index i).chars) :
    Text.isBlank c = false :=
  Text.not_isBlank_of_isDigit (List.all_eq_true.mp (all_isDigit_toDigits i) c h)

theorem dot_not_mem_chars (h : s.Legible) : '.' ∉ s.chars := by
  cases s with
  | key k => exact h.2.1
  | index i =>
      intro hdot
      have hdigit := List.all_eq_true.mp (all_isDigit_toDigits i) '.' hdot
      exact absurd hdigit (by decide)

end Step

namespace FieldPath

variable {cs : List Char} {s : Step} {p : FieldPath} {written : String}

theorem parseSegment?_key {k : String} (h : (Step.key k).Legible) :
    parseSegment? k.toList = some (.key k) := by
  have hne : k.toList ≠ [] := Step.chars_ne_nil h
  rw [parseSegment?, if_neg hne, if_neg (by simp [h.2.2]), String.ofList_toList]

theorem parseSegment?_index {i : Nat} (h : (Step.index i).Legible) :
    parseSegment? (Nat.toDigits 10 i) = some (.index i) := by
  have hvalue : Text.decimalValue (Nat.toDigits 10 i) = i := by
    rw [Text.decimalValue_eq, Nat.ofDigitChars_toDigits (by decide) (by decide)]
  have hbound : i < Nat.pow 2 64 := h
  rw [parseSegment?, if_neg Nat.toDigits_ne_nil, if_pos (Step.all_isDigit_toDigits i), hvalue,
    if_pos hbound]

theorem parseSegment?_chars (h : s.Legible) : parseSegment? s.chars = some s := by
  cases s with
  | key k => exact parseSegment?_key h
  | index i => exact parseSegment?_index h

/-- A segment that is read is an index within bounds, or a key that is kept as it is. -/
theorem parseSegment?_eq_some (h : parseSegment? cs = some s) :
    (∃ i < Nat.pow 2 64, s = .index i) ∨
      (s = .key (String.ofList cs) ∧ cs ≠ [] ∧ cs.all Char.isDigit = false) := by
  rw [parseSegment?] at h
  split at h
  next => cases h
  next hne =>
    split at h
    next =>
      split at h
      next hbound =>
        cases h
        exact .inl ⟨_, hbound, rfl⟩
      next => cases h
    next hdigits =>
      cases h
      exact .inr ⟨rfl, hne, Bool.eq_false_iff.mpr hdigits⟩

theorem legible_of_parseSegment? (h : parseSegment? cs = some s) (hdot : '.' ∉ cs) : s.Legible := by
  rcases parseSegment?_eq_some h with ⟨i, hbound, rfl⟩ | ⟨rfl, hne, hdigits⟩
  · exact hbound
  · refine ⟨?_, ?_, ?_⟩
    · intro hempty
      rw [String.ofList_eq_empty_iff] at hempty
      exact hne hempty
    · rwa [String.toList_ofList]
    · rwa [String.toList_ofList]

theorem parseSegment?_eq_none_iff : parseSegment? cs = none ↔
    cs = [] ∨ cs.all Char.isDigit = true ∧ Nat.pow 2 64 - 1 < Text.decimalValue cs := by
  have hbound : Nat.pow 2 64 - 1 < Text.decimalValue cs ↔
      ¬ Text.decimalValue cs < Nat.pow 2 64 := by
    have hpositive : 0 < Nat.pow 2 64 := Nat.pow_pos (by decide)
    omega
  rw [hbound, parseSegment?]
  split
  next hnil => simp [hnil]
  next hne =>
    split
    next hdigits =>
      split
      next hless => simp [hne, hless]
      next hmore => simp [hdigits, hmore]
    next hdigits => simp [hne, hdigits]

theorem segments_eq (cs : List Char) : segments cs = cs.splitOn '.' := by
  induction cs with
  | nil => rfl
  | cons c rest ih =>
      obtain ⟨first, more, hsplit⟩ := List.exists_cons_of_ne_nil (List.splitOn_ne_nil '.' rest)
      rw [segments, List.splitOn_cons_eq_if_modifyHead, ih, hsplit]
      simp only [beq_iff_eq]
      rfl

theorem dot_not_mem_of_mem_segments {segment : List Char} (h : segment ∈ segments cs) :
    '.' ∉ segment := by
  induction cs generalizing segment with
  | nil =>
      cases List.mem_singleton.mp h
      exact List.not_mem_nil
  | cons c rest ih =>
      rw [segments] at h
      split at h
      next =>
        rcases List.mem_cons.mp h with rfl | h
        · exact List.not_mem_nil
        · exact ih h
      next hc =>
        split at h
        next =>
          cases List.mem_singleton.mp h
          simpa using Ne.symm hc
        next first more hsplit =>
          rw [hsplit] at ih
          rcases List.mem_cons.mp h with rfl | h
          · simpa [Ne.symm hc] using ih List.mem_cons_self
          · exact ih (List.mem_cons_of_mem _ h)

theorem chars_eq (p : FieldPath) : p.chars = ['.'].intercalate (p.map Step.chars) := by
  induction p with
  | nil => rfl
  | cons s rest ih =>
      cases rest with
      | nil => exact List.intercalate_singleton.symm
      | cons next more =>
          rw [List.map_cons, List.map_cons, List.intercalate_cons_cons, ← List.map_cons, ← ih,
            List.append_assoc]
          rfl

theorem segments_chars (hne : p ≠ []) (hsteps : ∀ s ∈ p, s.Legible) :
    segments p.chars = p.map Step.chars := by
  rw [segments_eq, chars_eq, List.splitOn_intercalate]
  · intro segment hsegment
    obtain ⟨s, hs, rfl⟩ := List.mem_map.mp hsegment
    exact Step.dot_not_mem_chars (hsteps s hs)
  · exact fun hnil => hne (List.map_eq_nil_iff.mp hnil)

theorem intercalate_segments (cs : List Char) : ['.'].intercalate (segments cs) = cs := by
  rw [segments_eq, List.intercalate_splitOn]

/-! ## Both ends of a text -/

/-- A text starts as its first segment does, unless that is empty. -/
theorem head?_of_segments {segment : List Char} (h : (segments cs).head? = some segment)
    (hne : segment ≠ []) : cs.head? = segment.head? := by
  obtain ⟨rest, hsegments⟩ := List.head?_eq_some_iff.mp h
  rw [← intercalate_segments cs, hsegments]
  cases rest with
  | nil => rw [List.intercalate_singleton]
  | cons next more =>
      rw [List.intercalate_cons_cons, List.append_assoc, List.head?_append_of_ne_nil _ hne]

/-- A text ends as its last segment does, unless that is empty. -/
theorem getLast?_of_segments {segment : List Char} (h : (segments cs).getLast? = some segment)
    (hne : segment ≠ []) : cs.getLast? = segment.getLast? := by
  rw [← intercalate_segments cs]
  generalize segments cs = ss at h
  induction ss with
  | nil => cases h
  | cons first rest ih =>
      cases rest with
      | nil =>
          obtain rfl : first = segment := Option.some.inj h
          rw [List.intercalate_singleton]
      | cons next more =>
          have hlast := ih h
          rw [List.intercalate_cons_cons, List.getLast?_append, hlast,
            List.getLast?_eq_some_getLast hne]
          rfl

/-- No blank stands on an end of a legible path's text: an index has digits only, and of the keys
only the first and the last one reach an end. -/
theorem trimmed_chars (h : p.Legible) : Text.Trimmed p.chars := by
  rcases p with _ | ⟨first, rest⟩
  · exact ⟨nofun, nofun⟩
  have hsegments := segments_chars (List.cons_ne_nil first rest) h.steps
  constructor
  · intro c hc
    have hhead : (segments (chars (first :: rest))).head? = some first.chars := by
      rw [hsegments]
      rfl
    rw [head?_of_segments hhead (Step.chars_ne_nil (h.steps first List.mem_cons_self))] at hc
    cases first with
    | key k => exact h.first k rfl c hc
    | index i => exact Step.not_isBlank_of_index (List.mem_of_mem_head? hc)
  · intro c hc
    have hlast := List.getLast?_eq_getLast_of_ne_nil (List.cons_ne_nil first rest)
    generalize (first :: rest).getLast _ = last at hlast
    have hend : (segments (chars (first :: rest))).getLast? = some last.chars := by
      rw [hsegments, List.getLast?_map, hlast]
      rfl
    rw [getLast?_of_segments hend (Step.chars_ne_nil (h.steps last (List.mem_of_getLast? hlast)))]
      at hc
    cases last with
    | key k => exact h.last k (by rw [hlast]; rfl) c hc
    | index i => exact Step.not_isBlank_of_index (List.mem_of_getLast? hc)

/-! ## Reading a text -/

theorem parseTrimmed?_eq_some (h : parseTrimmed? cs = some p) : cs = [] ∧ p = [] ∨
    cs ≠ [] ∧ List.Forall₂ (fun segment s => parseSegment? segment = some s) (segments cs) p := by
  rw [parseTrimmed?] at h
  split at h
  next hnil =>
    cases h
    exact .inl ⟨hnil, rfl⟩
  next hne => exact .inr ⟨hne, mapM_eq_some.mp h⟩

theorem parseTrimmed?_chars (h : p.Legible) : parseTrimmed? p.chars = some p := by
  cases p with
  | nil => rfl
  | cons s rest =>
      have hsegments := segments_chars (List.cons_ne_nil s rest) h.steps
      have hne : chars (s :: rest) ≠ [] := by
        intro hnil
        rw [hnil] at hsegments
        exact Step.chars_ne_nil (h.steps s List.mem_cons_self) (List.cons.inj hsegments).1.symm
      rw [parseTrimmed?, if_neg hne, hsegments, mapM_eq_some, List.forall₂_map_left_iff,
        List.forall₂_same]
      exact fun x hx => parseSegment?_chars (h.steps x hx)

/-- What a trimmed text is read as is legible. -/
theorem legible_of_parseTrimmed? (htrimmed : Text.Trimmed cs) (h : parseTrimmed? cs = some p) :
    p.Legible := by
  rcases parseTrimmed?_eq_some h with ⟨-, rfl⟩ | ⟨-, hread⟩
  · exact ⟨nofun, nofun, nofun⟩
  -- A key is kept as its segment is, so it has the ends of that.
  have hkey : ∀ {segment : List Char} {k : String}, parseSegment? segment = some (.key k) →
      k.toList = segment ∧ segment ≠ [] := by
    intro segment k hsegment
    rcases parseSegment?_eq_some hsegment with ⟨i, -, ⟨⟩⟩ | ⟨⟨⟩, hne, -⟩
    exact ⟨String.toList_ofList, hne⟩
  refine ⟨?_, ?_, ?_⟩
  · intro s hs
    obtain ⟨segment, hsegment, hs⟩ := exists_of_mem_right hread hs
    exact legible_of_parseSegment? hs (dot_not_mem_of_mem_segments hsegment)
  · intro k hk c hc
    obtain ⟨s, hs, hsk⟩ := Option.bind_eq_some_iff.mp hk
    cases Step.key?_eq_some hsk
    obtain ⟨segment, hhead, hsegment⟩ := exists_head?_of_forall₂ hread hs
    obtain ⟨rfl, hne⟩ := hkey hsegment
    exact htrimmed.first c (head?_of_segments hhead hne ▸ hc)
  · intro k hk c hc
    obtain ⟨s, hs, hsk⟩ := Option.bind_eq_some_iff.mp hk
    cases Step.key?_eq_some hsk
    obtain ⟨segment, hlast, hsegment⟩ := exists_getLast?_of_forall₂ hread hs
    obtain ⟨rfl, hne⟩ := hkey hsegment
    exact htrimmed.last c (getLast?_of_segments hlast hne ▸ hc)

theorem parseTrimmed?_eq_none_iff : parseTrimmed? cs = none ↔ cs ≠ [] ∧
    ∃ segment ∈ cs.splitOn '.', segment = [] ∨
      segment.all Char.isDigit = true ∧ Nat.pow 2 64 - 1 < Text.decimalValue segment := by
  simp only [← parseSegment?_eq_none_iff, ← segments_eq]
  rw [parseTrimmed?]
  split
  next hnil => simp [hnil]
  next hne =>
    constructor
    · exact fun h => ⟨hne, exists_of_mapM_eq_none h⟩
    · rintro ⟨-, segment, hsegment, hnone⟩
      exact mapM_eq_none hsegment hnone

theorem ofText_eq_ok_iff :
    ofText written = .ok p ↔ parseTrimmed? (Text.trim written.toList) = some p := by
  rw [ofText, parse?]
  cases parseTrimmed? (Text.trim written.toList) with
  | none => exact ⟨nofun, nofun⟩
  | some q => exact ⟨fun h => by cases h; rfl, fun h => by cases h; rfl⟩

theorem ofText_eq_error_iff {e : DocumentError} : ofText written = .error e ↔
    e = .invalidPath (String.ofList (Text.trim written.toList)) ∧
      parseTrimmed? (Text.trim written.toList) = none := by
  rw [ofText, parse?]
  cases parseTrimmed? (Text.trim written.toList) with
  | none => exact ⟨fun h => by cases h; exact ⟨rfl, rfl⟩, fun h => h.1 ▸ rfl⟩
  | some q => exact ⟨nofun, nofun⟩

theorem legible_of_ofText (h : ofText written = .ok p) : p.Legible :=
  legible_of_parseTrimmed? (Text.trimmed_trim written.toList) (ofText_eq_ok_iff.mp h)

theorem ofText_text (h : p.Legible) : ofText p.text = .ok p := by
  rw [ofText_eq_ok_iff, text, String.toList_ofList, (trimmed_chars h).trim_eq]
  exact parseTrimmed?_chars h

/-- A path is read back from its dotted text exactly if it is legible, reading a text again as it is
then written changes nothing, and a text is refused exactly if, trimmed, it is not empty and has an
empty segment or an index of more than 64 bits. -/
theorem dotted_text_read_back :
    (∀ p : FieldPath, ofText p.text = .ok p ↔ p.Legible) ∧
      (∀ written : String, (ofText written >>= fun p => ofText p.text) = ofText written) ∧
      ∀ (written : String) (e : DocumentError), ofText written = .error e ↔
        e = .invalidPath (String.ofList (Text.trim written.toList)) ∧
          Text.trim written.toList ≠ [] ∧
          ∃ segment ∈ (Text.trim written.toList).splitOn '.', segment = [] ∨
            segment.all Char.isDigit = true ∧
              Nat.pow 2 64 - 1 < Text.decimalValue segment := by
  refine ⟨fun p => ⟨legible_of_ofText, ofText_text⟩, ?_, ?_⟩
  · intro written
    cases hread : ofText written with
    | error e => rfl
    | ok p => exact ofText_text (legible_of_ofText hread)
  · intro written e
    rw [ofText_eq_error_iff, parseTrimmed?_eq_none_iff]

/-- Blanks at the ends and leading zeros are not kept. -/
example : ofText " a.007 " = .ok [.key "a", .index 7] := rfl

end FieldPath

end DatasetCatalog
