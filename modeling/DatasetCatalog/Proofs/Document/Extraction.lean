import DatasetCatalog.Proofs.Document.Comparison
import DatasetCatalog.Proofs.Document.Stripping

/-!
# Taking out one field of a document

A field is read from the root down. To take it out, another way is gone to the mapping around it,
from slot to slot, and what is left of the mapping is written back through them. A slot holds what
reading finds at its path and writing to it replaces just that (`Slot.foldlM_step?`), so both ways
meet the same field, whatever keys and indices lead there. All that was in the document and does not
go with the field is still there, in its order.
-/

namespace DatasetCatalog

namespace Fields

theorem keys_erase (fields : Fields) (k : String) :
    (fields.erase k).keys = fields.keys.erase k := by
  induction fields with
  | nil => rfl
  | cons f rest ih =>
      obtain ⟨l, w⟩ := f
      rw [erase, show keys ((l, w) :: rest) = l :: keys rest from rfl, List.erase_cons]
      by_cases hlk : l = k
      · rw [if_pos hlk, if_pos (beq_iff_eq.mpr hlk)]
      · rw [if_neg hlk, if_neg (by simpa using hlk)]
        exact congrArg (l :: ·) ih

end Fields

namespace Value

variable {u v : Value} {s : Step} {c p q : FieldPath}

/-! ## What is replaced at a path -/

theorem replace_self (h : v.step? s = some u) : v.replace s u = v := by
  cases v <;> cases s <;> simp only [step?, reduceCtorEq] at h
  case sequence.index items i =>
    obtain ⟨hi, rfl⟩ := List.getElem?_eq_some_iff.mp h
    exact congrArg sequence (List.set_getElem_self hi)
  case mapping.key fields k => exact congrArg mapping (Fields.put_of_find? h)

theorem replaceAt_self (h : v.at? p = some u) : v.replaceAt p u = v := by
  induction p generalizing v with
  | nil => exact (Option.some.inj h).symm
  | cons s rest ih =>
      obtain ⟨inner, hinner, h⟩ := Option.bind_eq_some_iff.mp h
      rw [replaceAt_cons hinner, ih h, replace_self hinner]

theorem at?_replaceAt (h : v.at? p = some u) (w : Value) : (v.replaceAt p w).at? p = some w := by
  induction p generalizing v with
  | nil => rfl
  | cons s rest ih =>
      obtain ⟨inner, hinner, h⟩ := Option.bind_eq_some_iff.mp h
      rw [replaceAt_cons hinner, at?_cons, step?_replace hinner]
      exact ih h

/-- A field is taken out of the value that an upper part of its path leads to. -/
theorem take?_append (hq : q ≠ []) (v : Value) (c : FieldPath) :
    v.take? (c ++ q) = (v.at? c).bind fun u =>
      (u.take? q).map fun taken => (taken.1, v.replaceAt c taken.2) := by
  induction c generalizing v with
  | nil => exact (congrFun Option.map_id (v.take? q)).symm
  | cons s c ih =>
      have hrest : c ++ q ≠ [] := fun h => hq (List.append_eq_nil_iff.mp h).2
      obtain ⟨next, more, hnext⟩ := List.exists_cons_of_ne_nil hrest
      rw [List.cons_append, hnext, take?_cons_cons, ← hnext, at?_cons]
      cases hs : v.step? s with
      | none => rfl
      | some inner =>
          simp only [Option.bind_some, ih, replaceAt_cons hs, Option.map_bind, Function.comp_def,
            Option.map_map]

theorem take?_concat {fields : Fields} (h : v.at? c = some (.mapping fields)) (k : String) :
    v.take? (c ++ [.key k]) = (fields.find? k).map fun w =>
      (w, v.replaceAt c (.mapping (fields.erase k))) := by
  rw [take?_append (List.cons_ne_nil _ _), h]
  exact Option.map_map ..

/-- Only a mapping has a field to be taken out. -/
theorem take?_concat_eq_none (h : ∀ fields, v.at? c ≠ some (.mapping fields)) (k : String) :
    v.take? (c ++ [.key k]) = none := by
  rw [take?_append (List.cons_ne_nil _ _)]
  cases hu : v.at? c with
  | none => rfl
  | some u =>
      cases u with
      | mapping fields => exact (h fields hu).elim
      | null | boolean | number | text | sequence => rfl

/-! ## The keys that are left -/

/-- The keys of a mapping, in their order. -/
def keys? : Value → Option (List String)
  | .mapping fields => some (Fields.keys fields)
  | _ => none

theorem keys?_replace (h : v.step? s = some u) (w : Value) : (v.replace s w).keys? = v.keys? := by
  cases v <;> cases s <;> simp only [step?, reduceCtorEq] at h
  case sequence.index => rfl
  case mapping.key fields k =>
    have hk : k ∈ Fields.keys fields := Fields.mem_keys_iff.mpr (Option.isSome_of_eq_some h)
    rw [replace, keys?, Fields.keys_put, if_pos hk, keys?]

/-- A key can be read. -/
theorem at?_key_ne_none {keys : List String} (h : (v.at? c).bind keys? = some keys) {l : String}
    (hl : l ∈ keys) : v.at? (c ++ [.key l]) ≠ none := by
  obtain ⟨u, hu, hkeys⟩ := Option.bind_eq_some_iff.mp h
  cases u with
  | mapping fields =>
      cases hkeys
      obtain ⟨w, hw⟩ := Option.isSome_iff_exists.mp (Fields.mem_keys_iff.mp hl)
      rw [at?_append, hu, Option.bind_some, Fields.at?_key, hw]
      exact Option.some_ne_none w
  | null | boolean | number | text | sequence => cases hkeys

/-- All keys are kept if the path leads to none of them. -/
theorem map_filter_keys {keys : Option (List String)}
    (h : ∀ names, keys = some names → ∀ l ∈ names, c ++ [.key l] ≠ p) :
    keys.map (List.filter fun l => c ++ [.key l] ≠ p) = keys := by
  cases keys with
  | none => rfl
  | some names =>
      apply congrArg some
      apply List.filter_eq_self.mpr
      exact fun l hl => decide_eq_true (h names rfl l hl)

/-- The value that a field is taken out of keeps its keys, but for the one of the field. -/
theorem keys?_of_take? (hv : v.WellFormed) {taken : Value × Value} (h : v.take? q = some taken) :
    taken.2.keys? = v.keys?.map (List.filter fun l => [.key l] ≠ q) := by
  cases q with
  | nil => cases h
  | cons s q =>
      cases q with
      | nil =>
          cases v <;> cases s <;> simp only [take?, reduceCtorEq] at h
          case mapping.key fields k =>
            obtain ⟨w, -, rfl⟩ := Option.map_eq_some_iff.mp h
            apply congrArg some
            rw [Fields.keys_erase, hv.keys_nodup.erase_eq_filter]
            apply List.filter_congr
            intro l _
            exact Bool.eq_iff_iff.mpr (by simp)
      | cons next more =>
          rw [take?_cons_cons] at h
          obtain ⟨inner, hinner, h⟩ := Option.bind_eq_some_iff.mp h
          obtain ⟨left, -, rfl⟩ := Option.map_eq_some_iff.mp h
          rw [keys?_replace hinner]
          exact (map_filter_keys (c := []) fun _ _ l _ hl => by cases hl).symm

/-- Every mapping that does not go with the field keeps its keys, but for the one of the field. -/
theorem keys?_at?_of_take? (hv : v.WellFormed) {taken : Value × Value} (h : v.take? p = some taken)
    (hc : ¬ p <+: c) :
    (taken.2.at? c).bind keys? =
      ((v.at? c).bind keys?).map (List.filter fun l => c ++ [.key l] ≠ p) := by
  -- On the way to the field a mapping loses what the rest of the path leads to.
  by_cases hcp : c <+: p
  · obtain ⟨q, rfl⟩ := hcp
    have hq : q ≠ [] := by
      rintro rfl
      exact hc (by rw [List.append_nil])
    rw [take?_append hq] at h
    obtain ⟨u, hu, h⟩ := Option.bind_eq_some_iff.mp h
    obtain ⟨left, hleft, rfl⟩ := Option.map_eq_some_iff.mp h
    rw [at?_replaceAt hu, hu, Option.bind_some, Option.bind_some,
      keys?_of_take? (hv.at? hu) hleft]
    simp only [List.append_right_inj, ne_eq]
  · rw [at?_of_take?_of_apart hv h ⟨hc, hcp⟩]
    exact (map_filter_keys fun _ _ l _ hl => hcp ⟨[.key l], hl⟩).symm

end Value

namespace Slot

variable (v : Value) (write : Value → Fields)

/-- One step down is a step of reading, and what is written there replaces what was read. -/
theorem step?_eq (s : Step) :
    step? ⟨v, write⟩ s = (v.step? s).map fun u => ⟨u, fun w => write (v.replace s w)⟩ := by
  cases v <;> cases s <;> rfl

/-- A way down ends where reading along it does, and writing there replaces what was read. -/
theorem foldlM_step? (path : FieldPath) :
    path.foldlM step? ⟨v, write⟩ =
      (v.at? path).map fun u => ⟨u, fun w => write (v.replaceAt path w)⟩ := by
  induction path generalizing v write with
  | nil => rfl
  | cons s rest ih =>
      rw [List.foldlM_cons, step?_eq, Value.at?_cons]
      cases hs : v.step? s with
      | none => rfl
      | some u =>
          simp only [Value.replaceAt_cons hs]
          exact ih u _

end Slot

namespace Document

variable {d : Document} {p parent : FieldPath} {fields : Fields}

theorem slot?_key (d : Document) (k : String) (rest : FieldPath) :
    d.slot? (.key k :: rest) = (d.fields.find? k).bind fun v =>
      (v.at? rest).map fun u => ⟨u, fun w => d.fields.put k (v.replaceAt rest w)⟩ := by
  rw [slot?]
  exact Option.bind_congr fun v _ => Slot.foldlM_step? v _ rest

/-- The way to a slot ends where reading does. -/
theorem map_value_slot? (d : Document) (p : FieldPath) : (d.slot? p).map Slot.value = d.get? p := by
  cases p with
  | nil => rfl
  | cons s rest =>
      cases s with
      | index i => rfl
      | key k =>
          rw [slot?_key, Option.map_bind]
          apply Option.bind_congr
          intro v _
          exact (Option.map_map ..).trans (congrFun Option.map_id (v.at? rest))

/-- Writing to a slot replaces what it holds and nothing else. -/
theorem mapping_write {slot : Slot} (h : d.slot? p = some slot) (w : Value) :
    Value.mapping (slot.write w) = d.value.replaceAt p w := by
  cases p with
  | nil => cases h
  | cons s rest =>
      cases s with
      | index i => cases h
      | key k =>
          rw [slot?_key] at h
          obtain ⟨v, hv, h⟩ := Option.bind_eq_some_iff.mp h
          obtain ⟨u, -, rfl⟩ := Option.map_eq_some_iff.mp h
          have hstep : d.value.step? (.key k) = some v := hv
          exact (Value.replaceAt_cons hstep rest w).symm

/-! ## Taking out in place -/

theorem removeInPlace_of_slot {write : Value → Fields} (hne : parent ≠ [])
    (hslot : d.slot? parent = some ⟨.mapping fields, write⟩) (k : String) :
    d.removeInPlace (parent ++ [.key k]) = (fields.find? k, write (.mapping (fields.erase k))) := by
  simp [removeInPlace, FieldPath.parent?, hne, hslot]

theorem removeInPlace_of_mapping (h : d.value.at? parent = some (.mapping fields)) (k : String) :
    ∃ left, d.removeInPlace (parent ++ [.key k]) = (fields.find? k, left) ∧
      Value.mapping left = d.value.replaceAt parent (.mapping (fields.erase k)) := by
  cases parent with
  | nil =>
      cases h
      exact ⟨d.fields.erase k, rfl, rfl⟩
  | cons s rest =>
      rw [← get?_of_ne_nil (List.cons_ne_nil s rest), ← map_value_slot?] at h
      obtain ⟨⟨_, write⟩, hslot, rfl⟩ := Option.map_eq_some_iff.mp h
      exact ⟨_, removeInPlace_of_slot (List.cons_ne_nil s rest) hslot k, mapping_write hslot _⟩

theorem removeInPlace_of_no_mapping (h : ∀ fields, d.value.at? parent ≠ some (.mapping fields))
    (k : String) : d.removeInPlace (parent ++ [.key k]) = (none, d.fields) := by
  have hne : parent ≠ [] := by
    rintro rfl
    exact h d.fields rfl
  have hread := d.map_value_slot? parent
  rw [get?_of_ne_nil hne] at hread
  cases hslot : d.slot? parent with
  | none => simp [removeInPlace, FieldPath.parent?, hne, hslot]
  | some slot =>
      obtain ⟨u, write⟩ := slot
      rw [hslot] at hread
      cases u with
      | mapping fields => exact (h fields hread.symm).elim
      | null | boolean | number | text | sequence =>
          simp [removeInPlace, FieldPath.parent?, hne, hslot]

theorem removeInPlace_of_no_key (h : ∀ k, p.getLast? ≠ some (.key k)) (d : Document) :
    d.removeInPlace p = (none, d.fields) := by
  rw [removeInPlace]
  split
  next k _ hlast _ => exact (h k hlast).elim
  next => rfl

/-- What is taken out in place, and what is left. -/
theorem removeInPlace_eq (d : Document) (p : FieldPath) :
    d.removeInPlace p = match d.remove? p with
      | some (v, e) => (some v, e.fields)
      | none => (none, d.fields) := by
  by_cases hkey : ∃ k, p.getLast? = some (.key k)
  · obtain ⟨k, hlast⟩ := hkey
    obtain ⟨parent, rfl⟩ := List.getLast?_eq_some_iff.mp hlast
    by_cases hmapping : ∃ fields, d.value.at? parent = some (.mapping fields)
    · obtain ⟨fields, hfields⟩ := hmapping
      obtain ⟨left, hleft, hvalue⟩ := removeInPlace_of_mapping hfields k
      have htake := Value.take?_concat hfields k
      rw [hleft]
      cases hk : Fields.find? fields k with
      | none =>
          -- The slot is written all the same, with the mapping that it held.
          rw [hk] at htake
          rw [Fields.erase_of_find?_eq_none hk, Value.replaceAt_self hfields] at hvalue
          rw [remove?_eq_none htake, Value.mapping.inj hvalue]
      | some w =>
          rw [hk, Option.map_some, ← hvalue] at htake
          cases hremove : d.remove? (parent ++ [.key k]) with
          | none => cases htake.symm.trans (take?_of_remove?_eq_none hremove)
          | some taken =>
              cases htake.symm.trans (remove?_eq_some hremove)
              rfl
    · have hother := not_exists.mp hmapping
      rw [removeInPlace_of_no_mapping hother, remove?_eq_none (Value.take?_concat_eq_none hother k)]
  · have hother := not_exists.mp hkey
    rw [removeInPlace_of_no_key hother, remove?_eq_none (Value.take?_eq_none hother)]

/-- Taking a field out gives what is read at its path, and leaves nothing there or below. Every path
that parts from this one reads as before, and every mapping that is left keeps its keys in their
order, but for the one of the field. A field that is not there is not taken out, nor is the root or
an element of a sequence, and the document stays as it is. -/
theorem remove_takes_out_what_is_read (d : Document) (p : FieldPath) :
    (∀ k, p.getLast? = some (.key k) → ∃ e : Document,
      d.removeInPlace p = (d.get? p, e.fields) ∧ d.remove? p = (d.get? p).map (·, e) ∧
      (∀ q, e.get? (p ++ q) = none) ∧ (∀ q, p.Apart q → e.get? q = d.get? q) ∧
      (∀ c, ¬ p <+: c → (e.value.at? c).bind Value.keys? =
        ((d.value.at? c).bind Value.keys?).map (List.filter fun l => c ++ [.key l] ≠ p)) ∧
      (d.get? p = none → e = d)) ∧
    ((p = [] ∨ ∃ i, p.getLast? = some (.index i)) →
      d.removeInPlace p = (none, d.fields) ∧ d.remove? p = none) := by
  constructor
  · intro k hlast
    have hne : p ≠ [] := by
      rintro rfl
      cases hlast
    cases hremove : d.remove? p with
    | none =>
        have habsent := get?_of_remove?_eq_none hlast hremove
        have hgone : d.value.at? p = none := (get?_of_ne_nil hne).symm.trans habsent
        refine ⟨d, by rw [removeInPlace_eq, hremove, habsent], by rw [habsent]; rfl, ?_,
          fun _ _ => rfl, ?_, fun _ => rfl⟩
        · intro q
          rw [get?_of_ne_nil fun h => hne (List.append_eq_nil_iff.mp h).1]
          exact at?_of_isPrefix hgone (List.prefix_append p q)
        · intro c _
          apply Eq.symm
          apply Value.map_filter_keys
          intro names hnames l hl hlp
          exact Value.at?_key_ne_none hnames hl (hlp ▸ hgone)
    | some taken =>
        obtain ⟨v, e⟩ := taken
        have hread := get?_eq_of_remove? hremove
        refine ⟨e, by rw [removeInPlace_eq, hremove, hread], by rw [hread]; rfl, ?_, ?_, ?_, ?_⟩
        · exact fun q => get?_of_remove? hremove ⟨q, rfl⟩
        · exact fun q => get?_of_remove?_of_apart hremove
        · exact fun c => Value.keys?_at?_of_take? d.wellFormed_value (remove?_eq_some hremove)
        · intro habsent
          cases hread.symm.trans habsent
  · intro hnone
    have hkey : ∀ k, p.getLast? ≠ some (.key k) := by
      rintro k hlast
      rcases hnone with rfl | ⟨i, hindex⟩
      · cases hlast
      · cases hindex.symm.trans hlast
    exact ⟨removeInPlace_of_no_key hkey d, remove?_eq_none (Value.take?_eq_none hkey)⟩

section Gauge

def gauge : Document := .ofFields [("title", .text "gauge"), ("bands", .sequence
  [.mapping [("name", .text "level"), ("unit", .text "m"), ("gain", .null)],
    .mapping [("name", .text "flow")]])]

/-- The unit of a band goes and its other fields keep their order. A band without a unit has none to
take out, and a band itself is not taken out. -/
theorem gauge_takes_out_what_is_read :
    (∃ e,
      gauge.removeInPlace [.key "bands", .index 0, .key "unit"] = (some (.text "m"), e.fields) ∧
      gauge.remove? [.key "bands", .index 0, .key "unit"] = some (.text "m", e) ∧
      e.get? [.key "bands", .index 0, .key "unit"] = none ∧
      e.get? [.key "bands", .index 0, .key "gain"] = some .null ∧
      (e.value.at? [.key "bands", .index 0]).bind Value.keys? = some ["name", "gain"]) ∧
    gauge.get? [.key "bands", .index 1, .key "unit"] = none ∧
    gauge.removeInPlace [.key "bands", .index 1, .key "unit"] = (none, gauge.fields) ∧
    gauge.removeInPlace [.key "bands", .index 1] = (none, gauge.fields) := by
  obtain ⟨hunit, -⟩ := gauge.remove_takes_out_what_is_read [.key "bands", .index 0, .key "unit"]
  obtain ⟨e, hplace, hremove, hgone, hapart, hkeys, -⟩ := hunit "unit" rfl
  obtain ⟨hmissing, -⟩ := gauge.remove_takes_out_what_is_read [.key "bands", .index 1, .key "unit"]
  obtain ⟨same, hunchanged, -, -, -, -, hsame⟩ := hmissing "unit" rfl
  obtain ⟨-, hindex⟩ := gauge.remove_takes_out_what_is_read [.key "bands", .index 1]
  refine ⟨⟨e, hplace, hremove, hgone [], ?_, ?_⟩, rfl, ?_, (hindex (.inr ⟨1, rfl⟩)).1⟩
  · exact hapart [.key "bands", .index 0, .key "gain"] (by decide)
  · exact (hkeys [.key "bands", .index 0] (by decide)).trans (by decide)
  · rw [hunchanged, hsame rfl]
    rfl

end Gauge

end Document

end DatasetCatalog
