import DatasetCatalog.Value.Basic

/-!
# Mappings without repeated keys

A text may write a key twice, a document may not hold it twice. `WellFormed` says that no mapping
in a value repeats a key, and `normalize` brings every value into that form.
-/

namespace DatasetCatalog

namespace Value

mutual

/-- No mapping in the value repeats a key. -/
def WellFormed : Value → Prop
  | .sequence items => AllWellFormed items
  | .mapping fields => (fields.map Prod.fst).Nodup ∧ FieldsWellFormed fields
  | _ => True

def AllWellFormed : List Value → Prop
  | [] => True
  | v :: rest => v.WellFormed ∧ AllWellFormed rest

def FieldsWellFormed : List (String × Value) → Prop
  | [] => True
  | (_, v) :: rest => v.WellFormed ∧ FieldsWellFormed rest

end

mutual

/-- Collapses the repeated keys of every mapping. -/
def normalize : Value → Value
  | .sequence items => .sequence (normalizeItems items)
  | .mapping fields => .mapping (Fields.collapse (normalizeFields fields))
  | v => v

def normalizeItems : List Value → List Value
  | [] => []
  | v :: rest => v.normalize :: normalizeItems rest

def normalizeFields : List (String × Value) → List (String × Value)
  | [] => []
  | (k, v) :: rest => (k, v.normalize) :: normalizeFields rest

end

theorem allWellFormed_iff {items : List Value} :
    AllWellFormed items ↔ ∀ v ∈ items, v.WellFormed := by
  induction items with
  | nil => simp [AllWellFormed]
  | cons v rest ih => simp [AllWellFormed, ih]

theorem fieldsWellFormed_iff {fields : List (String × Value)} :
    FieldsWellFormed fields ↔ ∀ f ∈ fields, f.2.WellFormed := by
  induction fields with
  | nil => simp [FieldsWellFormed]
  | cons f rest ih => obtain ⟨k, v⟩ := f; simp [FieldsWellFormed, ih]

end Value

namespace Fields

/-- The fields have distinct keys and well-formed values. -/
def WellFormed (fields : Fields) : Prop := (Value.mapping fields).WellFormed

theorem wellFormed_iff {fields : Fields} :
    fields.WellFormed ↔ fields.keys.Nodup ∧ ∀ f ∈ fields, f.2.WellFormed := by
  simp [WellFormed, Value.WellFormed, keys, Value.fieldsWellFormed_iff]

theorem wellFormed_nil : WellFormed [] := by simp [wellFormed_iff, keys]

theorem WellFormed.find? {fields : Fields} (h : fields.WellFormed) {k : String} {v : Value}
    (hv : fields.find? k = some v) : v.WellFormed :=
  (wellFormed_iff.1 h).2 _ (mem_of_find? hv)

theorem keys_put (fields : Fields) (k : String) (v : Value) :
    (fields.put k v).keys = if k ∈ fields.keys then fields.keys else fields.keys ++ [k] := by
  induction fields with
  | nil => simp [put, keys]
  | cons f rest ih =>
    obtain ⟨m, w⟩ := f
    simp only [put]
    split
    next h => subst h; simp [keys]
    next h =>
      simp only [keys, List.map_cons, List.mem_cons] at ih ⊢
      rw [ih]
      grind

theorem mem_put {fields : Fields} {k : String} {v : Value} {f : String × Value}
    (h : f ∈ fields.put k v) : f = (k, v) ∨ f ∈ fields := by
  induction fields with
  | nil => simp_all [put]
  | cons g rest ih =>
    obtain ⟨m, w⟩ := g
    simp only [put] at h
    split at h <;> grind

theorem WellFormed.put {fields : Fields} (h : fields.WellFormed) (k : String) {v : Value}
    (hv : v.WellFormed) : (fields.put k v).WellFormed := by
  rw [wellFormed_iff] at h ⊢
  refine ⟨?_, ?_⟩
  · rw [keys_put]
    split
    · exact h.1
    · rw [List.nodup_append]
      grind
  · intro f hf
    rcases mem_put hf with rfl | hf
    · exact hv
    · exact h.2 f hf

theorem erase_sublist (fields : Fields) (k : String) : (fields.erase k).Sublist fields := by
  induction fields with
  | nil => exact .slnil
  | cons f rest ih =>
    obtain ⟨m, w⟩ := f
    simp only [erase]
    split
    · exact List.sublist_cons_self _ _
    · exact ih.cons_cons _

theorem WellFormed.sublist {fields rest : Fields} (h : fields.WellFormed)
    (hs : rest.Sublist fields) : WellFormed rest := by
  rw [wellFormed_iff] at h ⊢
  exact ⟨h.1.sublist (hs.map Prod.fst), fun f hf => h.2 f (hs.subset hf)⟩

theorem WellFormed.erase {fields : Fields} (h : fields.WellFormed) (k : String) :
    (fields.erase k).WellFormed :=
  h.sublist (erase_sublist fields k)

theorem wellFormed_foldl_put {fields done : Fields} (hd : done.WellFormed)
    (h : ∀ f ∈ fields, f.2.WellFormed) :
    (fields.foldl (fun done f => put done f.1 f.2) done).WellFormed := by
  induction fields generalizing done with
  | nil => exact hd
  | cons f rest ih =>
    exact ih (hd.put f.1 (h f (by simp))) fun g hg => h g (List.mem_cons_of_mem _ hg)

theorem wellFormed_collapse {fields : Fields} (h : ∀ f ∈ fields, f.2.WellFormed) :
    (collapse fields).WellFormed :=
  wellFormed_foldl_put wellFormed_nil h

end Fields

namespace Value

mutual

theorem wellFormed_normalize : ∀ v : Value, v.normalize.WellFormed
  | .null | .boolean _ | .number _ | .text _ => by simp [normalize, WellFormed]
  | .sequence items => by
    simp only [normalize, WellFormed]
    exact allWellFormed_normalizeItems items
  | .mapping fields => by
    simp only [normalize]
    exact Fields.wellFormed_collapse (fieldsWellFormed_iff.1 (wellFormed_normalizeFields fields))

theorem allWellFormed_normalizeItems : ∀ items : List Value, AllWellFormed (normalizeItems items)
  | [] => by simp [normalizeItems, AllWellFormed]
  | v :: rest => by
    simp only [normalizeItems, AllWellFormed]
    exact ⟨wellFormed_normalize v, allWellFormed_normalizeItems rest⟩

theorem wellFormed_normalizeFields :
    ∀ fields : List (String × Value), FieldsWellFormed (normalizeFields fields)
  | [] => by simp [normalizeFields, FieldsWellFormed]
  | (_, v) :: rest => by
    simp only [normalizeFields, FieldsWellFormed]
    exact ⟨wellFormed_normalize v, wellFormed_normalizeFields rest⟩

end

end Value

end DatasetCatalog
