import DatasetCatalog.Product.Basic
import DatasetCatalog.Proofs.Json.Record

/-!
# Products read back

A product is read back from its record, but for its metadata as it was (`Product.reread?`).
-/

namespace DatasetCatalog.Product

open Json.Tree (ofValue)

theorem list?_text (texts : List String) :
    Json.Tree.list? Json.Tree.text? (ofValue (.sequence (texts.map .text))) = some texts := by
  rw [Json.Tree.list?_sequence]
  exact (mapM_eq_map fun _ _ => rfl).trans (congrArg some (List.map_id texts))

theorem record?_record (p : Product) :
    (ofValue p.record).record? ["name", "description", "metadata", "measurements"] =
      some [some (ofValue (.text p.name)), p.description.map fun d => ofValue (.text d),
        some (ofValue p.metadata.value), some (ofValue (.sequence (p.measurements.map .text)))] := by
  cases hdescription : p.description <;>
    rw [record, hdescription, Json.Tree.record?_mapping (by simp [Fields.keys])] <;>
    simp [Fields.find?_cons]

/-- The product with its metadata as a reader of that many levels makes them. -/
def reread? (levels : Nat) (p : Product) : Option Product :=
  (p.metadata.reread? levels).map fun metadata => { p with metadata }

theorem read?_record (levels : Nat) (p : Product) :
    read? levels (ofValue p.record) = p.reread? levels := by
  have hdescription : Json.Tree.orElse? none (Json.Tree.optional? Json.Tree.text?)
      (p.description.map fun d => ofValue (.text d)) = some p.description := by
    cases p.description <;> rfl
  rw [read?, record?_record]
  dsimp only
  rw [hdescription]
  simp only [Json.Tree.required?, Json.Tree.orElse?, list?_text, Option.bind_eq_bind,
    Option.bind_some]
  rw [reread?, Document.reread?]
  cases (ofValue p.metadata.value).document? levels <;> rfl

theorem reread?_eq_some_iff {levels : Nat} {p : Product} :
    p.reread? levels = some p ↔ p.metadata.Legible levels := by
  rw [← Document.reread?_eq_some_iff, reread?, Option.map_eq_some_iff]
  constructor
  · rintro ⟨metadata, hmetadata, hp⟩
    rw [hmetadata, ← hp]
  · exact fun h => ⟨p.metadata, h, rfl⟩

end DatasetCatalog.Product
