import DatasetCatalog.Document.InPlace
import DatasetCatalog.Proofs.Document.Grafting

/-!
# Setting one field of a document

Setting a field changes what is at its path, and what stands in its way: whatever on the way down is
no mapping gives way to one that holds nothing else. Where another path turns off decides what
becomes of it (`Fields.at?_setAt_of_fork`). On a document that is changed where it stands the same is
written, because an opened level is a mapping, so that nothing is refused after the first write.
-/

namespace DatasetCatalog

namespace FieldPath

variable {p q c : FieldPath} {s t : Step}

/-- The longest path that leads to both. -/
def meet : FieldPath → FieldPath → FieldPath
  | s :: p, t :: q => if s = t then s :: meet p q else []
  | _, _ => []

theorem meet_cons_of_ne (h : s ≠ t) (p q : FieldPath) : meet (s :: p) (t :: q) = [] := if_neg h

theorem meet_cons_self (s : Step) (p q : FieldPath) : meet (s :: p) (s :: q) = s :: meet p q :=
  if_pos rfl

/-- What leads to both paths leads to where they part. -/
theorem isPrefix_meet_iff : c <+: meet p q ↔ c <+: p ∧ c <+: q := by
  induction p generalizing q c with
  | nil =>
      show c <+: [] ↔ _
      exact ⟨fun h => ⟨h, h.trans List.nil_prefix⟩, And.left⟩
  | cons s p ih =>
      cases q with
      | nil => exact ⟨fun h => ⟨h.trans List.nil_prefix, h⟩, And.right⟩
      | cons t q =>
          cases c with
          | nil => exact ⟨fun _ => ⟨List.nil_prefix, List.nil_prefix⟩, fun _ => List.nil_prefix⟩
          | cons u c =>
              by_cases h : s = t
              · subst h
                rw [meet_cons_self]
                simp only [List.cons_prefix_cons, ih]
                exact ⟨fun ⟨hu, hp, hq⟩ => ⟨⟨hu, hp⟩, hu, hq⟩, fun ⟨⟨hu, hp⟩, _, hq⟩ => ⟨hu, hp, hq⟩⟩
              · rw [meet_cons_of_ne h]
                constructor
                · intro hc
                  cases List.prefix_nil.mp hc
                · rintro ⟨hp, hq⟩
                  have hs := (List.cons_prefix_cons.mp hp).1
                  exact (h (hs.symm.trans (List.cons_prefix_cons.mp hq).1)).elim

/-- Paths that are apart turn off in different directions where they part. -/
theorem Apart.exists_fork (h : p.Apart q) :
    ∃ s t p' q', s ≠ t ∧ p = p.meet q ++ s :: p' ∧ q = p.meet q ++ t :: q' := by
  induction p generalizing q with
  | nil => exact (h.1 List.nil_prefix).elim
  | cons s p ih =>
      cases q with
      | nil => exact (h.2 List.nil_prefix).elim
      | cons t q =>
          by_cases hst : s = t
          · subst hst
            obtain ⟨s', t', p', q', hne, hp, hq⟩ := ih h.tail
            rw [meet_cons_self]
            exact ⟨s', t', p', q', hne, congrArg (s :: ·) hp, congrArg (s :: ·) hq⟩
          · rw [meet_cons_of_ne hst]
            exact ⟨s, t, p, q, hst, rfl, rfl⟩

theorem keys?_ofKeys (keys : List String) : (ofKeys keys).keys? = some keys := by
  apply mapM_eq_some.mpr
  exact List.forall₂_map_left_iff.mpr (List.forall₂_same.mpr fun _ _ => rfl)

theorem keys?_eq_none_iff : p.keys? = none ↔ ∃ i, .index i ∈ p := by
  constructor
  · intro h
    obtain ⟨s, hs, hnone⟩ := exists_of_mapM_eq_none h
    cases s with
    | key k => cases hnone
    | index i => exact ⟨i, hs⟩
  · rintro ⟨i, hi⟩
    exact mapM_eq_none hi rfl

/-- A path without indices is the root or the path of some keys. -/
theorem exists_keys (h : ¬ (p = [] ∨ ∃ i, .index i ∈ p)) : ∃ k rest, p = ofKeys (k :: rest) := by
  cases hkeys : p.keys? with
  | none => exact (h (.inr (keys?_eq_none_iff.mp hkeys))).elim
  | some keys =>
      have hp := eq_ofKeys_of_keys? hkeys
      cases keys with
      | nil => exact (h (.inl hp)).elim
      | cons k rest => exact ⟨k, rest, hp⟩

end FieldPath

namespace Fields

variable {fields : Fields} {v : Value} {k : String} {rest : List String}

/-- The mapping under a key, an empty one if there is none. -/
def below (fields : Fields) (k : String) : Fields :=
  match fields.find? k with
  | some (.mapping inner) => inner
  | _ => []

theorem below_eq {inner : Fields} (h : fields.find? k = some (.mapping inner)) :
    fields.below k = inner := by
  rw [below, h]

theorem below_eq_nil (h : ∀ inner, fields.find? k ≠ some (.mapping inner)) :
    fields.below k = [] := by
  rw [below]
  split
  next inner hinner => exact (h inner hinner).elim
  next => rfl

theorem setAt_cons (fields : Fields) (v : Value) (k next : String) (more : List String) :
    fields.setAt v k (next :: more) =
      fields.put k (.mapping ((fields.below k).setAt v next more)) := rfl

/-- Of the mapping around them, only the field under the first key is written. -/
theorem exists_setAt_eq_put (fields : Fields) (v : Value) (k : String) (rest : List String) :
    ∃ w, fields.setAt v k rest = fields.put k w := by
  cases rest with
  | nil => exact ⟨v, rfl⟩
  | cons next more => exact ⟨_, setAt_cons fields v k next more⟩

theorem at?_setAt_of_ne (fields : Fields) {s : Step} (h : s ≠ .key k) (v : Value)
    (path : FieldPath) : (Value.mapping (fields.setAt v k rest)).at? (s :: path) =
      (Value.mapping fields).at? (s :: path) := by
  obtain ⟨w, hw⟩ := exists_setAt_eq_put fields v k rest
  rw [hw]
  exact at?_put_of_ne fields h w path

/-! ## Writing level by level -/

theorem find?_openLevel (fields : Fields) (k : String) :
    (fields.openLevel k).find? k = some (.mapping (fields.below k)) := by
  rw [openLevel]
  split
  next inner hinner => rw [hinner, below_eq hinner]
  next hother => rw [find?_put, if_pos rfl, below_eq_nil hother]

theorem put_openLevel (fields : Fields) (k : String) (w : Value) :
    (fields.openLevel k).put k w = fields.put k w := by
  rw [openLevel]
  split
  next => rfl
  next => exact put_put fields k _ w

/-- Every opened level is a mapping, so the field is written, and nothing else is. -/
theorem writeAt_eq (fields : Fields) (v : Value) (refusal : DocumentError) {way : List String}
    {last : String} (h : way ++ [last] = k :: rest) :
    fields.writeAt v refusal way last = (.ok (), fields.setAt v k rest) := by
  induction way generalizing fields k rest with
  | nil =>
      cases h
      rfl
  | cons l way ih =>
      cases rest with
      | nil => cases (List.append_eq_nil_iff.mp (List.cons.inj h).2).2
      | cons next more =>
          obtain ⟨rfl, htail⟩ := List.cons.inj h
          rw [writeAt]
          simp only [find?_openLevel, ih (fields.below l) htail, put_openLevel, setAt_cons]

/-! ## Where paths part -/

/-- Where a path turns off from the one that is set, it goes on as before if a mapping was there, and
leads nowhere if not. -/
theorem at?_setAt_of_fork (fields : Fields) (v : Value) {c p : FieldPath} {s t : Step}
    (h : FieldPath.ofKeys (k :: rest) = c ++ s :: p) (hst : s ≠ t) (q : FieldPath) :
    (Value.mapping (fields.setAt v k rest)).at? (c ++ t :: q) =
      ((Value.mapping fields).at? c).bind fun w => if w.isMapping then w.at? (t :: q) else none := by
  induction c generalizing fields k rest with
  | nil =>
      obtain ⟨rfl, -⟩ := List.cons.inj h
      exact at?_setAt_of_ne fields hst.symm v q
  | cons u c ih =>
      obtain ⟨rfl, htail⟩ := List.cons.inj h
      cases rest with
      | nil => cases c <;> cases htail
      | cons next more =>
          rw [setAt_cons, List.cons_append, at?_put_self, ih (fields.below k) htail, at?_key, below]
          -- What is no mapping has no fields below it, like the empty mapping in its place.
          have hempty : (Value.mapping []).at? (t :: q) = none := by cases t <;> rfl
          cases c with
          | nil => cases fields.find? k with
            | none => exact hempty
            | some w => cases w <;> first | exact hempty | rfl
          | cons u' c =>
              obtain ⟨rfl, -⟩ := List.cons.inj htail
              cases fields.find? k with
              | none => rfl
              | some w => cases w <;> rfl

/-- A way that leads to mappings from here and from a mapping leads through a mapping here. -/
theorem exists_mapping_of_at? {w : Value} {c : FieldPath} {before after : Fields}
    (hw : w.at? c = some (.mapping before))
    (h : (Value.mapping fields).at? c = some (.mapping after)) : ∃ inner, w = .mapping inner := by
  cases c with
  | nil => exact ⟨before, Option.some.inj hw⟩
  | cons s c =>
      cases s with
      | index i => cases h
      | key l => cases w <;> first | exact ⟨_, rfl⟩ | cases hw

/-- A mapping that is still one keeps its keys in their order; the one that gets a new key has it at
the end. -/
theorem keys_at?_setAt {c : FieldPath} {before after : Fields}
    (hc : ¬ FieldPath.ofKeys (k :: rest) <+: c)
    (hbefore : (Value.mapping fields).at? c = some (.mapping before))
    (hafter : (Value.mapping (fields.setAt v k rest)).at? c = some (.mapping after)) :
    after.keys = before.keys ∨ ∃ l, c ++ [.key l] <+: FieldPath.ofKeys (k :: rest) ∧
      l ∉ before.keys ∧ after.keys = before.keys ++ [l] := by
  induction c generalizing fields k rest with
  | nil =>
      cases hbefore
      obtain ⟨w, hw⟩ := exists_setAt_eq_put before v k rest
      cases Value.mapping.inj (Option.some.inj (hw ▸ hafter))
      rw [keys_put]
      split
      next => exact .inl rfl
      next hnew => exact .inr ⟨k, ⟨FieldPath.ofKeys rest, rfl⟩, hnew, rfl⟩
  | cons s c ih =>
      by_cases hs : s = .key k
      · subst hs
        cases rest with
        | nil => exact (hc ⟨c, rfl⟩).elim
        | cons next more =>
            rw [setAt_cons, at?_put_self] at hafter
            obtain ⟨w, hw, hbefore⟩ := Option.bind_eq_some_iff.mp hbefore
            obtain ⟨inner, rfl⟩ := exists_mapping_of_at? hbefore hafter
            rw [below_eq hw] at hafter
            apply (ih (fun h => hc ((List.prefix_cons_inj _).mpr h)) hbefore hafter).imp_right
            rintro ⟨l, hl, hnew, hkeys⟩
            exact ⟨l, (List.prefix_cons_inj _).mpr hl, hnew, hkeys⟩
      · cases hafter.symm.trans ((at?_setAt_of_ne fields hs v c).trans hbefore)
        exact .inl rfl

end Fields

namespace Document

variable {d e : Document} {p q : FieldPath} {v : Value}

/-- What is set in place, and what is refused. -/
theorem setInPlace_eq (d : Document) (p : FieldPath) (v : Value) :
    d.setInPlace p v = match d.set? p v with
      | .ok e => (.ok (), e.fields)
      | .error refusal => (.error refusal, d.fields) := by
  rw [setInPlace, set?]
  cases p.keys? with
  | none => rfl
  | some keys =>
      cases keys with
      | nil => rfl
      | cons k rest =>
          have hlast : (k :: rest).getLast? = some ((k :: rest).getLast (List.cons_ne_nil k rest)) :=
            List.getLast?_eq_some_getLast _
          simp only [hlast]
          exact Fields.writeAt_eq d.fields v.normalize _ (List.dropLast_append_getLast _)

theorem set?_eq_error (d : Document) (h : p = [] ∨ ∃ i, .index i ∈ p) (v : Value) :
    d.set? p v = .error (.invalidPath p.text) := by
  rw [set?]
  rcases h with rfl | hindex
  · rfl
  · rw [FieldPath.keys?_eq_none_iff.mpr hindex]

theorem exists_set?_ofKeys (d : Document) (hv : v.WellFormed) (k : String) (rest : List String) :
    ∃ e, d.set? (.ofKeys (k :: rest)) v = .ok e ∧ e.fields = d.fields.setAt v k rest := by
  rw [set?, FieldPath.keys?_ofKeys]
  refine ⟨_, rfl, ?_⟩
  simp only [Value.normalize_of_wellFormed v hv]

/-- Below a path without a value there are none. -/
theorem at?_of_isPrefix {u : Value} {c : FieldPath} (h : u.at? c = none) (hc : c <+: q) :
    u.at? q = none := by
  obtain ⟨rest, rfl⟩ := hc
  rw [Value.at?_append, h, Option.bind_none]

/-- What another path reads is decided where it parts from the one that was set. -/
theorem get?_of_fields_setAt {k : String} {rest : List String}
    (he : e.fields = d.fields.setAt v k rest) (hpq : (FieldPath.ofKeys (k :: rest)).Apart q) :
    e.get? q = (d.value.at? ((FieldPath.ofKeys (k :: rest)).meet q)).bind fun w =>
      if w.isMapping then d.get? q else none := by
  obtain ⟨s, t, p', q', hst, hp, hq⟩ := hpq.exists_fork
  have hne : q ≠ [] := fun h => hpq.2 (h ▸ List.nil_prefix)
  have hread := Fields.at?_setAt_of_fork d.fields v hp hst q'
  rw [← hq, ← he] at hread
  rw [get?_of_ne_nil hne, get?_of_ne_nil hne]
  apply hread.trans
  apply Option.bind_congr
  intro w hw
  have hbelow : d.value.at? q = w.at? (t :: q') := by
    rw [hq, Value.at?_append]
    exact congrArg (Option.bind · _) hw
  rw [hbelow]

/-- Nothing had to give way where the other path parts from the one that was set. -/
theorem get?_of_open_fork {k : String} {rest : List String}
    (he : e.fields = d.fields.setAt v k rest) (hpq : (FieldPath.ofKeys (k :: rest)).Apart q)
    (h : (FieldPath.ofKeys (k :: rest)).meet q = [] ∨
      d.get? ((FieldPath.ofKeys (k :: rest)).meet q) = none ∨
      ∃ fields, d.get? ((FieldPath.ofKeys (k :: rest)).meet q) = some (.mapping fields)) :
    e.get? q = d.get? q := by
  rw [get?_of_fields_setAt he hpq]
  by_cases hroot : (FieldPath.ofKeys (k :: rest)).meet q = []
  · rw [hroot]
    rfl
  · rw [get?_of_ne_nil hroot] at h
    rcases h with hnil | hnone | ⟨fields, hmapping⟩
    · exact (hroot hnil).elim
    · have hne : q ≠ [] := by
        rintro rfl
        exact hpq.2 List.nil_prefix
      rw [hnone, get?_of_ne_nil hne]
      exact (at?_of_isPrefix hnone (FieldPath.isPrefix_meet_iff.mp List.prefix_rfl).2).symm
    · rw [hmapping]
      rfl

/-- Something that is no mapping gave way where the other path parts from the one that was set. -/
theorem get?_of_blocked_fork {k : String} {rest : List String}
    (he : e.fields = d.fields.setAt v k rest) (hpq : (FieldPath.ofKeys (k :: rest)).Apart q)
    (w : Value) (hw : d.get? ((FieldPath.ofKeys (k :: rest)).meet q) = some w)
    (hother : w.isMapping = false) : e.get? q = none := by
  have hroot : (FieldPath.ofKeys (k :: rest)).meet q ≠ [] := fun hnil => by
    rw [hnil] at hw
    cases hw
  rw [get?_of_ne_nil hroot] at hw
  rw [get?_of_fields_setAt he hpq, hw, Option.bind_some, hother]
  rfl

/-- Setting a field is refused at the root and at paths with an index, and writes nothing then. At any
other path the value is there afterwards. Every path that parts from this one reads as before, unless
something that is no mapping gave way where they part: then nothing is left there. No mapping loses or
moves a key, and a new one comes last. -/
theorem set_writes_one_field (d : Document) (p : FieldPath) {v : Value} (hv : v.WellFormed) :
    (p = [] ∨ (∃ i, .index i ∈ p) →
      d.set? p v = .error (.invalidPath p.text) ∧
        d.setInPlace p v = (.error (.invalidPath p.text), d.fields)) ∧
    (¬ (p = [] ∨ ∃ i, .index i ∈ p) → ∃ e, d.set? p v = .ok e ∧
      d.setInPlace p v = (.ok (), e.fields) ∧
      e.get? p = some v ∧ (∀ q, e.get? (p ++ q) = v.at? q) ∧
      (∀ q, p.Apart q →
        (p.meet q = [] ∨ d.get? (p.meet q) = none ∨
            (∃ fields, d.get? (p.meet q) = some (.mapping fields)) → e.get? q = d.get? q) ∧
        ∀ w, d.get? (p.meet q) = some w → w.isMapping = false → e.get? q = none) ∧
      ∀ c before after, ¬ p <+: c → d.value.at? c = some (.mapping before) →
        e.value.at? c = some (.mapping after) →
        Fields.keys after = Fields.keys before ∨ ∃ l, c ++ [.key l] <+: p ∧
          l ∉ Fields.keys before ∧ Fields.keys after = Fields.keys before ++ [l]) := by
  constructor
  · intro hrefused
    have hset := d.set?_eq_error hrefused v
    exact ⟨hset, by rw [setInPlace_eq, hset]⟩
  · intro hkeys
    obtain ⟨k, rest, rfl⟩ := FieldPath.exists_keys hkeys
    obtain ⟨e, hset, hfields⟩ := d.exists_set?_ofKeys hv k rest
    have hne : FieldPath.ofKeys (k :: rest) ≠ [] := fun h => hkeys (.inl h)
    have hself : e.value.at? (.ofKeys (k :: rest)) = some v := by
      rw [value, hfields]
      exact Fields.at?_setAt_self d.fields v k rest
    refine ⟨e, hset, by rw [setInPlace_eq, hset], ?_, ?_, ?_, ?_⟩
    · rw [get?_of_ne_nil hne, hself]
    · intro q
      rw [get?_of_ne_nil fun h => hne (List.append_eq_nil_iff.mp h).1, Value.at?_append, hself,
        Option.bind_some]
    · exact fun q hpq => ⟨get?_of_open_fork hfields hpq, get?_of_blocked_fork hfields hpq⟩
    · intro c before after hc hbefore hafter
      rw [value, hfields] at hafter
      exact Fields.keys_at?_setAt hc hbefore hafter

section Relabelled

def relabelled : Document := .ofFields [("title", .text "reef"),
  ("bands", .sequence [.text "red", .text "nir"]), ("lineage", .mapping [("level", .null)])]

/-- A sequence gives way to a mapping, and with it its elements go. -/
theorem relabelled_writes_one_field :
    (Value.text "dB").WellFormed ∧
      (∃ e, relabelled.set? (.ofKeys ["bands", "red", "unit"]) (.text "dB") = .ok e ∧
        e.get? (.ofKeys ["bands", "red", "unit"]) = some (.text "dB") ∧
        relabelled.get? [.key "bands", .index 1] = some (.text "nir") ∧
        e.get? [.key "bands", .index 1] = none ∧
        e.get? (.ofKeys ["lineage", "level"]) = some .null ∧
        ∃ fields, e.value = .mapping fields ∧ Fields.keys fields = ["title", "bands", "lineage"]) ∧
      relabelled.setInPlace [.key "bands", .index 1] (.text "dB") =
        (.error (.invalidPath "bands.1"), relabelled.fields) := by
  have hwell : (Value.text "dB").WellFormed := trivial
  obtain ⟨-, hset⟩ := relabelled.set_writes_one_field (.ofKeys ["bands", "red", "unit"]) hwell
  obtain ⟨e, he, -, hself, -, hapart, hkeys⟩ := hset (by simp [FieldPath.ofKeys])
  obtain ⟨-, hgone⟩ := hapart [.key "bands", .index 1] (by decide)
  obtain ⟨hkept, -⟩ := hapart (.ofKeys ["lineage", "level"]) (by decide)
  obtain ⟨hrefused, -⟩ := relabelled.set_writes_one_field [.key "bands", .index 1] hwell
  refine ⟨hwell, ⟨e, he, hself, rfl, hgone _ rfl rfl, hkept (.inl rfl), e.fields, rfl, ?_⟩,
    (hrefused (.inr ⟨1, by decide⟩)).2⟩
  rcases hkeys [] _ _ (by decide) rfl rfl with hsame | ⟨l, hl, hnew, -⟩
  · exact hsame
  · obtain ⟨rest, hrest⟩ := hl
    cases hrest
    exact (hnew (by decide)).elim

end Relabelled

end Document

end DatasetCatalog
