import DatasetCatalog.Proofs.Json.Value
import DatasetCatalog.Proofs.Outcome

/-!
# Records read back

In the tree of a mapping every field is found under its name, so that a record is read field by
field whatever else the mapping holds.
-/

namespace DatasetCatalog

namespace Fields

theorem find?_append (fields more : Fields) (k : String) :
    Fields.find? (fields ++ more) k = (fields.find? k).or (more.find? k) := by
  induction fields with
  | nil => rfl
  | cons f rest ih =>
      obtain ⟨l, v⟩ := f
      rw [List.cons_append, find?_cons, find?_cons]
      split
      · rfl
      · exact ih

end Fields

namespace Json.Tree

theorem ofItems_eq_map (items : List Value) : ofItems items = items.map ofValue := by
  induction items with
  | nil => rfl
  | cons v rest ih => rw [ofItems, ih, List.map_cons]

theorem ofFields_eq_map (fields : Fields) :
    ofFields fields = fields.map fun f => (some f.1, ofValue f.2) := by
  induction fields with
  | nil => rfl
  | cons f rest ih => rw [ofFields, ih, List.map_cons]

theorem list?_sequence {α β : Type} {element : Tree → Option α} {value : β → Value} (xs : List β) :
    list? element (ofValue (.sequence (xs.map value))) =
      xs.mapM fun x => element (ofValue (value x)) := by
  rw [ofValue, list?, ofItems_eq_map, List.mapM_map, List.mapM_map]
  rfl

theorem entries?_mapping {α β : Type} {element : Tree → Option α} {field : β → String × Value}
    (xs : List β) :
    entries? element (ofValue (.mapping (xs.map field))) =
      xs.mapM fun x => (element (ofValue (field x).2)).map fun a => ((field x).1, a) := by
  rw [ofValue, entries?, ofFields_eq_map, List.mapM_map, List.mapM_map]
  rfl

/-- Of distinct names none is found twice. -/
theorem member?_ofFields {fields : Fields} (h : fields.keys.Nodup) (name : String) :
    member? (ofFields fields) name = some ((fields.find? name).map ofValue) := by
  induction fields with
  | nil => rfl
  | cons f rest ih =>
      obtain ⟨k, v⟩ := f
      obtain ⟨hfresh, hrest⟩ := List.nodup_cons.mp h
      rw [ofFields, Fields.find?_cons]
      by_cases hk : k = name
      · have hnone : (ofFields rest).filter (fun m => m.1 == some name) = [] := by
          rw [ofFields_eq_map, List.filter_eq_nil_iff]
          intro m hm
          obtain ⟨g, hg, rfl⟩ := List.mem_map.mp hm
          intro heq
          have hsame : g.1 = k := (Option.some.inj (beq_iff_eq.mp heq)).trans hk.symm
          exact hfresh (List.mem_map.mpr ⟨g, hg, hsame⟩)
        rw [member?, List.filter_cons_of_pos (by simp [hk]), hnone, if_pos hk]
        rfl
      · rw [member?, List.filter_cons_of_neg (by simp [hk]), if_neg hk]
        exact ih hrest

theorem record?_mapping {fields : Fields} (h : fields.keys.Nodup) (names : List String) :
    (ofValue (.mapping fields)).record? names =
      some (names.map fun name => (fields.find? name).map ofValue) := by
  have hkeys : (ofFields fields).all (fun m => m.1.isSome) = true := by
    rw [ofFields_eq_map, List.all_eq_true]
    intro m hm
    obtain ⟨f, -, rfl⟩ := List.mem_map.mp hm
    rfl
  rw [ofValue, record?, if_pos hkeys]
  exact mapM_eq_map fun name _ => member?_ofFields h name

end Json.Tree

end DatasetCatalog
