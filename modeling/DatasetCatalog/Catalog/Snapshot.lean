import DatasetCatalog.Catalog.Basic
import DatasetCatalog.Product.Basic
import DatasetCatalog.Time.Text

/-!
# Snapshots

A catalog is kept as one JSON text: a version, the products in their order and the datasets by
identity, each with its product's name. Empty lists of archived locations and of sources are left
out, and so are absent times. `Catalog.ofSnapshot?` reads what `Catalog.snapshot` writes, as long as
no metadata nests too deeply for the JSON reader.
-/

namespace DatasetCatalog

namespace StoredDataset

/-- A field that is written only if it says something. -/
def optionalField (name : String) (v : Option Value) : Fields := (v.map fun v => (name, v)).toList

def timeField (name : String) (t : Option Timestamp) : Fields :=
  optionalField name (t.map fun t => .text t.text)

def textList (texts : List String) : Value := .sequence (texts.map .text)

def sourcesValue (sources : OrderedMap String Identity) : Value :=
  .mapping (sources.entries.map fun s => (s.1, .text s.2.text))

def record (d : StoredDataset) : Value :=
  .mapping ([("id", .text d.id.text), ("product", .text d.product), ("metadata", d.metadata.value),
      ("locations", textList d.locations)] ++
    optionalField "archived_locations"
      (if d.archivedLocations.isEmpty then none else some (textList d.archivedLocations)) ++
    optionalField "sources" (if d.sources.isEmpty then none else some (sourcesValue d.sources)) ++
    timeField "archived_time" d.archived ++ timeField "indexed_time" d.indexed)

def identity? (t : Json.Tree) : Option Identity := t.text?.bind Identity.parse?

def time? (t : Json.Tree) : Option Timestamp := t.text?.bind Timestamp.parse?

/-- Reads a record whose metadata nests at most `levels` containers. -/
def read? (levels : Nat) (t : Json.Tree) : Option StoredDataset :=
  match t.record? ["id", "product", "metadata", "locations", "archived_locations", "sources",
      "archived_time", "indexed_time"] with
  | some [id, product, metadata, locations, archivedLocations, sources, archived, indexed] => do
    let id ← Json.Tree.required? identity? id
    let product ← Json.Tree.required? Json.Tree.text? product
    let metadata ← Json.Tree.required? (Json.Tree.document? levels) metadata
    let locations ← Json.Tree.orElse? [] (Json.Tree.list? Json.Tree.text?) locations
    let archivedLocations ← Json.Tree.orElse? [] (Json.Tree.list? Json.Tree.text?) archivedLocations
    let sources ← Json.Tree.orElse? [] (Json.Tree.entries? identity?) sources
    let archived ← Json.Tree.orElse? none (Json.Tree.optional? time?) archived
    let indexed ← Json.Tree.orElse? none (Json.Tree.optional? time?) indexed
    some { id, product, metadata, locations, archivedLocations, sources := .ofList sources
           archived, indexed }
  | _ => none

def identityShape : Json.Shape :=
  .text false "a UUID string" fun s =>
    if (Identity.parse? s).isSome then none else some ("UUID parsing failed: " ++ Identity.refusal s)

def timeShape : Json.Shape :=
  .text true "an RFC 3339 formatted date and time string" fun s =>
    if (Timestamp.parse? s).isSome then none else some (Timestamp.refusal s).message

def shape : Json.Shape :=
  .record "StoredDataset"
    [("id", true, identityShape), ("product", true, .anyText),
      ("metadata", true, .entries .anything), ("locations", false, .list .anyText),
      ("archived_locations", false, .list .anyText), ("sources", false, .entries identityShape),
      ("archived_time", false, timeShape), ("indexed_time", false, timeShape)]

end StoredDataset

/-- Why a text is no snapshot. -/
inductive SnapshotError
  | malformed (cause : Option Json.Fault)
  | version (found : Nat)
  | unregisteredProduct (dataset : Identity) (product : String)
deriving DecidableEq

namespace SnapshotError

/-- The error for a snapshot kept in the file `path`. -/
def message (path : String) : SnapshotError → String
  | .malformed _ => "parsing catalog snapshot " ++ path
  | .version found =>
    "unsupported catalog snapshot version " ++ toString found ++ " in " ++ path
  | .unregisteredProduct dataset product =>
    (CatalogError.unregisteredProduct dataset product).message

/-- What is wrong with the text. -/
def fault? : SnapshotError → Option Json.Fault
  | .malformed cause => cause
  | _ => none

end SnapshotError

/-- What is kept of a catalog; the rest follows from it. -/
structure Snapshot where
  version : Nat
  products : List Product
  datasets : List StoredDataset
deriving Inhabited

namespace Snapshot

def currentVersion : Nat := 1

/-- The products and datasets of a catalog, the datasets in ascending order of identity. -/
def ofCatalog (c : Catalog) : Snapshot := ⟨currentVersion, c.products, c.datasets.values⟩

def record (s : Snapshot) : Value :=
  .mapping [("version", ((Number.ofInt? s.version).map .number).getD .null),
    ("products", .sequence (s.products.map Product.record)),
    ("datasets", .sequence (s.datasets.map StoredDataset.record))]

/-- What a document inside a snapshot may nest, three containers around it. -/
def levels : Nat := Json.nestingLimit - 3

def read? (t : Json.Tree) : Option Snapshot :=
  match t.record? ["version", "products", "datasets"] with
  | some [version, products, datasets] => do
    let version ← Json.Tree.required? (Json.Tree.natural? (Nat.pow 2 32)) version
    let products ← Json.Tree.required? (Json.Tree.list? (Product.read? levels)) products
    let datasets ← Json.Tree.required? (Json.Tree.list? (StoredDataset.read? levels)) datasets
    some { version, products, datasets }
  | _ => none

def shape : Json.Shape :=
  .record "Snapshot"
    [("version", true, .integer "u32" 0 (Nat.pow 2 32)), ("products", true, .list Product.shape),
      ("datasets", true, .list StoredDataset.shape)]

/-- Records a dataset whose product is registered. -/
def insertRegistered (c : Catalog) (d : StoredDataset) : Except SnapshotError Catalog :=
  match c.product? d.product with
  | none => .error (.unregisteredProduct d.id d.product)
  | some _ => .ok (c.insert d)

/-- The catalog with these products and datasets. -/
def restore (s : Snapshot) : Except SnapshotError Catalog :=
  s.datasets.foldlM insertRegistered { Catalog.empty with products := s.products }

end Snapshot

namespace Catalog

def snapshot (c : Catalog) : String := Json.indented (Snapshot.ofCatalog c).record

/-- The catalog of a snapshot text. -/
def ofSnapshot? (text : String) : Except SnapshotError Catalog :=
  match (Json.Tree.read? text).bind Snapshot.read? with
  | none => .error (.malformed (Snapshot.shape.fault? text))
  | some s =>
    if s.version ≠ Snapshot.currentVersion then .error (.version s.version)
    else s.restore

end Catalog

end DatasetCatalog
