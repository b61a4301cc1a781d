import DatasetCatalog.Json.Record
import DatasetCatalog.Proofs.Json.Tree

/-!
# Values read back

What a value is read back as depends on two things: how deep it nests, since a reader asks for a
bounded number of levels, and on what becomes of its numbers. Everything else comes back as it was
written.
-/

namespace DatasetCatalog

namespace Value

mutual

/-- How many containers stand inside each other. -/
def depth : Value → Nat
  | .sequence items => depthItems items + 1
  | .mapping fields => depthFields fields + 1
  | _ => 0

def depthItems : List Value → Nat
  | [] => 0
  | v :: rest => max v.depth (depthItems rest)

def depthFields : List (String × Value) → Nat
  | [] => 0
  | (_, v) :: rest => max v.depth (depthFields rest)

end

mutual

/-- The value with every number as its text is read, if all of them are read as numbers. -/
def reread? : Value → Option Value
  | .number n => n.reread?.map .number
  | .sequence items => (rereadItems? items).map .sequence
  | .mapping fields => (rereadFields? fields).map .mapping
  | v => some v

def rereadItems? : List Value → Option (List Value)
  | [] => some []
  | v :: rest => v.reread?.bind fun w => (rereadItems? rest).map (w :: ·)

def rereadFields? : List (String × Value) → Option Fields
  | [] => some []
  | (k, v) :: rest => v.reread?.bind fun w => (rereadFields? rest).map ((k, w) :: ·)

end

/-- Every number in the value is read back. -/
def ReadsBack (v : Value) : Prop := v.reread? = some v

mutual

/-- Whether every number in the value is an integer. -/
def isIntegral : Value → Bool
  | .number n => n.toInt?.isSome
  | .sequence items => areIntegral items
  | .mapping fields => haveIntegral fields
  | _ => true

def areIntegral : List Value → Bool
  | [] => true
  | v :: rest => v.isIntegral && areIntegral rest

def haveIntegral : List (String × Value) → Bool
  | [] => true
  | (_, v) :: rest => v.isIntegral && haveIntegral rest

end

mutual

/-- Only binary64 numbers may come back as others. -/
theorem readsBack_of_isIntegral : ∀ v : Value, v.isIntegral = true → v.ReadsBack
  | .null, _ | .boolean _, _ | .text _, _ => rfl
  | .number n, h => by
      cases n with
      | integer n hn =>
          rw [ReadsBack, reread?, Number.readsBack_integer hn]
          rfl
      | float x => cases h
  | .sequence items, h => by
      rw [isIntegral] at h
      rw [ReadsBack, reread?, rereadItems?_of_integral items h]
      rfl
  | .mapping fields, h => by
      rw [isIntegral] at h
      rw [ReadsBack, reread?, rereadFields?_of_integral fields h]
      rfl

theorem rereadItems?_of_integral :
    ∀ items : List Value, areIntegral items = true → rereadItems? items = some items
  | [], _ => rfl
  | v :: rest, h => by
      rw [areIntegral, Bool.and_eq_true] at h
      rw [rereadItems?, readsBack_of_isIntegral v h.1, rereadItems?_of_integral rest h.2]
      rfl

theorem rereadFields?_of_integral : ∀ fields : List (String × Value),
    haveIntegral fields = true → rereadFields? fields = some fields
  | [], _ => rfl
  | (k, v) :: rest, h => by
      rw [haveIntegral, Bool.and_eq_true] at h
      rw [rereadFields?, readsBack_of_isIntegral v h.1, rereadFields?_of_integral rest h.2]
      rfl

end

end Value

namespace Json.Tree

mutual

/-- A value comes out of its text if enough levels are read. -/
theorem value?_ofValue : ∀ (levels : Nat) (v : Value),
    (ofValue v).value? levels = if v.depth ≤ levels then v.reread? else none
  | levels, .null | levels, .boolean _ | levels, .text _ | levels, .number _ =>
      (if_pos (Nat.zero_le levels)).symm
  | levels, .sequence items => by
      rw [ofValue, Value.depth, Value.reread?]
      cases levels with
      | zero => rfl
      | succ levels =>
          rw [value?, values?_ofItems levels items]
          by_cases h : Value.depthItems items ≤ levels
          · rw [if_pos h, if_pos (Nat.succ_le_succ h)]
          · rw [if_neg h, if_neg (mt Nat.le_of_succ_le_succ h)]
            rfl
  | levels, .mapping fields => by
      rw [ofValue, Value.depth, Value.reread?]
      cases levels with
      | zero => rfl
      | succ levels =>
          rw [value?, fields?_ofFields levels fields]
          by_cases h : Value.depthFields fields ≤ levels
          · rw [if_pos h, if_pos (Nat.succ_le_succ h)]
          · rw [if_neg h, if_neg (mt Nat.le_of_succ_le_succ h)]
            rfl

theorem values?_ofItems : ∀ (levels : Nat) (items : List Value),
    values? levels (ofItems items) =
      if Value.depthItems items ≤ levels then Value.rereadItems? items else none
  | levels, [] => (if_pos (Nat.zero_le levels)).symm
  | levels, v :: rest => by
      rw [ofItems, values?, value?_ofValue levels v, values?_ofItems levels rest, Value.depthItems,
        Value.rereadItems?]
      simp only [Nat.max_le]
      by_cases hv : v.depth ≤ levels <;> by_cases hrest : Value.depthItems rest ≤ levels <;>
        simp [hv, hrest]

theorem fields?_ofFields : ∀ (levels : Nat) (fields : List (String × Value)),
    fields? levels (ofFields fields) =
      if Value.depthFields fields ≤ levels then Value.rereadFields? fields else none
  | levels, [] => (if_pos (Nat.zero_le levels)).symm
  | levels, (k, v) :: rest => by
      rw [ofFields, fields?, value?_ofValue levels v, fields?_ofFields levels rest,
        Value.depthFields, Value.rereadFields?]
      simp only [Nat.max_le]
      by_cases hv : v.depth ≤ levels <;> by_cases hrest : Value.depthFields rest ≤ levels <;>
        simp [hv, hrest]

end

end Json.Tree

/-! ## Documents -/

theorem Fields.put_of_fresh {fields : Fields} {k : String} (hk : k ∉ fields.keys) (v : Value) :
    fields.put k v = fields ++ [(k, v)] := by
  induction fields with
  | nil => rfl
  | cons f rest ih =>
      obtain ⟨l, w⟩ := f
      simp only [keys, List.map_cons, List.mem_cons, not_or] at hk
      rw [put, if_neg (Ne.symm hk.1), ih hk.2]
      rfl

/-- Without repeated keys nothing collapses. -/
theorem Fields.collapse_of_nodup {fields : Fields} (h : fields.keys.Nodup) :
    fields.collapse = fields := by
  have hfold : ∀ done : Fields, (done ++ fields).keys.Nodup →
      fields.foldl (fun done f => Fields.put done f.1 f.2) done = done ++ fields := by
    clear h
    induction fields with
    | nil => exact fun done _ => (List.append_nil done).symm
    | cons f rest ih =>
        intro done hdone
        have hfresh : f.1 ∉ done.keys := by
          intro hmem
          rw [keys, List.map_append, List.nodup_append] at hdone
          exact hdone.2.2 _ hmem _ List.mem_cons_self rfl
        rw [List.foldl_cons, put_of_fresh hfresh, ih _ (by simpa using hdone), List.append_assoc]
        rfl
  exact hfold [] h

namespace Value

mutual

theorem normalize_of_wellFormed : ∀ v : Value, v.WellFormed → v.normalize = v
  | .null, _ | .boolean _, _ | .number _, _ | .text _, _ => rfl
  | .sequence items, h => by
      rw [WellFormed] at h
      rw [normalize, normalizeItems_of_wellFormed items h]
  | .mapping fields, h => by
      rw [WellFormed] at h
      rw [normalize, normalizeFields_of_wellFormed fields h.2, Fields.collapse_of_nodup h.1]

theorem normalizeItems_of_wellFormed :
    ∀ items : List Value, AllWellFormed items → normalizeItems items = items
  | [], _ => rfl
  | v :: rest, h => by
      rw [AllWellFormed] at h
      rw [normalizeItems, normalize_of_wellFormed v h.1, normalizeItems_of_wellFormed rest h.2]

theorem normalizeFields_of_wellFormed :
    ∀ fields : List (String × Value), FieldsWellFormed fields → normalizeFields fields = fields
  | [], _ => rfl
  | (k, v) :: rest, h => by
      rw [FieldsWellFormed] at h
      rw [normalizeFields, normalize_of_wellFormed v h.1, normalizeFields_of_wellFormed rest h.2]

end

theorem keys_rereadFields? {fields read : List (String × Value)}
    (h : rereadFields? fields = some read) :
    read.map Prod.fst = fields.map Prod.fst := by
  induction fields generalizing read with
  | nil =>
      cases h
      rfl
  | cons f rest ih =>
      obtain ⟨k, v⟩ := f
      obtain ⟨w, -, h⟩ := Option.bind_eq_some_iff.mp h
      obtain ⟨more, hmore, rfl⟩ := Option.map_eq_some_iff.mp h
      rw [List.map_cons, List.map_cons, ih hmore]

mutual

/-- Rereading repeats no keys. -/
theorem wellFormed_of_reread? : ∀ (v : Value) {w : Value}, v.WellFormed → v.reread? = some w →
    w.WellFormed
  | .null, _, _, h | .boolean _, _, _, h | .text _, _, _, h => by
      cases h
      trivial
  | .number n, _, _, h => by
      obtain ⟨_, -, rfl⟩ := Option.map_eq_some_iff.mp h
      trivial
  | .sequence items, _, hv, h => by
      rw [WellFormed] at hv
      obtain ⟨read, hread, rfl⟩ := Option.map_eq_some_iff.mp h
      exact allWellFormed_of_reread? items hv hread
  | .mapping fields, _, hv, h => by
      rw [WellFormed] at hv
      obtain ⟨read, hread, rfl⟩ := Option.map_eq_some_iff.mp h
      exact ⟨keys_rereadFields? hread ▸ hv.1, fieldsWellFormed_of_reread? fields hv.2 hread⟩

theorem allWellFormed_of_reread? : ∀ (items : List Value) {read : List Value},
    AllWellFormed items → rereadItems? items = some read → AllWellFormed read
  | [], _, _, h => by
      cases h
      trivial
  | v :: rest, _, hv, h => by
      obtain ⟨w, hw, h⟩ := Option.bind_eq_some_iff.mp h
      obtain ⟨more, hmore, rfl⟩ := Option.map_eq_some_iff.mp h
      rw [AllWellFormed] at hv
      exact ⟨wellFormed_of_reread? v hv.1 hw, allWellFormed_of_reread? rest hv.2 hmore⟩

theorem fieldsWellFormed_of_reread? : ∀ (fields : List (String × Value))
    {read : List (String × Value)}, FieldsWellFormed fields → rereadFields? fields = some read →
    FieldsWellFormed read
  | [], _, _, h => by
      cases h
      trivial
  | (k, v) :: rest, _, hv, h => by
      obtain ⟨w, hw, h⟩ := Option.bind_eq_some_iff.mp h
      obtain ⟨more, hmore, rfl⟩ := Option.map_eq_some_iff.mp h
      rw [FieldsWellFormed] at hv
      exact ⟨wellFormed_of_reread? v hv.1 hw, fieldsWellFormed_of_reread? rest hv.2 hmore⟩

end

end Value

theorem Document.ofFields_of_wellFormed {fields : Fields} (h : fields.WellFormed) :
    Document.ofFields fields = ⟨fields, h⟩ := by
  refine Document.ext_fields ?_
  have hnormalize := Value.normalize_of_wellFormed (.mapping fields) h
  rw [Value.normalize] at hnormalize
  exact Value.mapping.inj hnormalize

namespace Document

/-- What a reader of that many levels makes of the document. -/
def reread? (levels : Nat) (d : Document) : Option Document :=
  (Json.Tree.ofValue d.value).document? levels

/-- The document nests no deeper than this many levels, and its numbers are read back. -/
structure Legible (levels : Nat) (d : Document) : Prop where
  depth : d.value.depth ≤ levels
  numbers : d.value.ReadsBack

variable {levels : Nat} {d : Document}

theorem reread?_of_deep (h : levels < d.value.depth) : d.reread? levels = none := by
  rw [reread?, Json.Tree.document?, Json.Tree.value?_ofValue, if_neg (Nat.not_le.mpr h)]
  rfl

/-- A document comes back as it was exactly if it is legible. -/
theorem reread?_eq_some_iff : d.reread? levels = some d ↔ d.Legible levels := by
  rw [reread?, Json.Tree.document?, Json.Tree.value?_ofValue]
  constructor
  · intro h
    obtain ⟨w, hw, h⟩ := Option.bind_eq_some_iff.mp h
    split at hw
    next hdepth =>
      have hwell : w.WellFormed := Value.wellFormed_of_reread? _ d.wellFormed hw
      cases w with
      | mapping fields =>
          have hfields := ofFields_of_wellFormed hwell
          rw [ofValue?, hfields] at h
          cases h
          exact ⟨hdepth, hw⟩
      | null | boolean | number | text | sequence => cases h
    next => cases hw
  · rintro ⟨hdepth, hnumbers⟩
    rw [if_pos hdepth, hnumbers, Option.bind_some, value, ofValue?,
      ofFields_of_wellFormed d.wellFormed]
    rfl

end Document

namespace Json

/-- The text of a value that a document reader accepts is read as the value. -/
theorem read?_indented {v : Value} (hdepth : v.depth ≤ nestingLimit) (hback : v.ReadsBack)
    (hv : v.WellFormed) : read? (indented v) = some v := by
  rw [read?, Tree.read?_indented, Option.bind_some, Tree.value?_ofValue, if_pos hdepth, hback,
    Option.map_some, Value.normalize_of_wellFormed v hv]

end Json

end DatasetCatalog
