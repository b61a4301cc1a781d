import DatasetCatalog.Value.WellFormed

/-!
# The size of a value

Every value counts for one more than its parts together. Normalizing never makes a value larger, so
the size bounds how deep documents can be embedded in one another.
-/

namespace DatasetCatalog

namespace Value

mutual

/-- How many values a value consists of, itself counted. -/
def size : Value → Nat
  | .sequence items => sizeItems items + 1
  | .mapping fields => sizeFields fields + 1
  | _ => 1

def sizeItems : List Value → Nat
  | [] => 0
  | v :: rest => v.size + sizeItems rest

def sizeFields : List (String × Value) → Nat
  | [] => 0
  | (_, v) :: rest => v.size + sizeFields rest

end

theorem sizeFields_put (fields : Fields) (k : String) (v : Value) :
    sizeFields (fields.put k v) ≤ sizeFields fields + v.size := by
  induction fields with
  | nil => simp [Fields.put, sizeFields]
  | cons f rest ih =>
    obtain ⟨m, w⟩ := f
    simp only [Fields.put]
    split <;> simp only [sizeFields] <;> omega

/-- Fields of repeated keys are dropped, and none is added. -/
theorem sizeFields_collapse (fields : Fields) :
    sizeFields fields.collapse ≤ sizeFields fields := by
  suffices h : ∀ done : Fields, sizeFields (fields.foldl (fun done f => Fields.put done f.1 f.2) done) ≤
      sizeFields done + sizeFields fields by
    have := h []
    simp only [sizeFields] at this
    simpa [Fields.collapse] using this
  induction fields with
  | nil => intro done; simp [sizeFields]
  | cons f rest ih =>
    intro done
    obtain ⟨m, w⟩ := f
    have := ih (Fields.put done m w)
    have := sizeFields_put done m w
    simp only [List.foldl_cons, sizeFields]
    omega

mutual

theorem size_normalize : ∀ v : Value, v.normalize.size ≤ v.size
  | .null | .boolean _ | .number _ | .text _ => by simp [normalize, size]
  | .sequence items => by
    simp only [normalize, size]
    have := sizeItems_normalizeItems items
    omega
  | .mapping fields => by
    simp only [normalize, size]
    have := sizeFields_normalizeFields fields
    have := sizeFields_collapse (normalizeFields fields)
    omega

theorem sizeItems_normalizeItems : ∀ items : List Value,
    sizeItems (normalizeItems items) ≤ sizeItems items
  | [] => by simp [normalizeItems]
  | v :: rest => by
    simp only [normalizeItems, sizeItems]
    have := size_normalize v
    have := sizeItems_normalizeItems rest
    omega

theorem sizeFields_normalizeFields : ∀ fields : List (String × Value),
    sizeFields (normalizeFields fields) ≤ sizeFields fields
  | [] => by simp [normalizeFields]
  | (_, v) :: rest => by
    simp only [normalizeFields, sizeFields]
    have := size_normalize v
    have := sizeFields_normalizeFields rest
    omega

end

theorem size_lt_of_mem_items {v : Value} {items : List Value} (h : v ∈ items) :
    v.size < (Value.sequence items).size := by
  simp only [size]
  induction items with
  | nil => simp at h
  | cons w rest ih =>
    simp only [sizeItems]
    rcases List.mem_cons.1 h with rfl | h
    · omega
    · have := ih h
      omega

theorem size_lt_of_mem_fields {f : String × Value} {fields : Fields} (h : f ∈ fields) :
    f.2.size < (Value.mapping fields).size := by
  simp only [size]
  induction fields with
  | nil => simp at h
  | cons g rest ih =>
    obtain ⟨m, w⟩ := g
    simp only [sizeFields]
    rcases List.mem_cons.1 h with rfl | h
    · simp only; omega
    · have := ih h
      omega

end Value

end DatasetCatalog
