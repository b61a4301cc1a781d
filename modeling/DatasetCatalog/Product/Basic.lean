import DatasetCatalog.Json.Record
import DatasetCatalog.Json.Shape

/-!
# Products

A product is a named family of datasets. Every member contains the product's metadata, its
signature, and declares its measurements. A product has a JSON form, without a description that is
absent.
-/

namespace DatasetCatalog

structure Product where
  name : String
  description : Option String
  /-- What the metadata of every member contains. -/
  metadata : Document
  /-- What every member declares; often nothing. -/
  measurements : List String
deriving Inhabited

namespace Product

/-- The same definition, where an integer and a binary64 number are never the same. -/
def identical (p q : Product) : Bool :=
  p.name == q.name && p.description == q.description &&
    p.metadata.value.identical q.metadata.value && p.measurements == q.measurements

/-! ## Records -/

def record (p : Product) : Value :=
  .mapping ([("name", .text p.name)] ++ (p.description.map fun d => ("description", .text d)).toList ++
    [("metadata", p.metadata.value), ("measurements", .sequence (p.measurements.map .text))])

/-- Reads a product whose metadata nests at most `levels` containers. -/
def read? (levels : Nat) (t : Json.Tree) : Option Product :=
  match t.record? ["name", "description", "metadata", "measurements"] with
  | some [name, description, metadata, measurements] => do
    let name ← Json.Tree.required? Json.Tree.text? name
    let description ← Json.Tree.orElse? none (Json.Tree.optional? Json.Tree.text?) description
    let metadata ← Json.Tree.required? (Json.Tree.document? levels) metadata
    let measurements ← Json.Tree.orElse? [] (Json.Tree.list? Json.Tree.text?) measurements
    some { name, description, metadata, measurements }
  | _ => none

def shape : Json.Shape :=
  .record "Product"
    [("name", true, .anyText), ("description", false, .optionalText),
      ("metadata", true, .entries .anything), ("measurements", false, .list .anyText)]

end Product

end DatasetCatalog
