import DatasetCatalog.Dataset.Graph
import DatasetCatalog.Document.ChangeRules
import DatasetCatalog.Event
import DatasetCatalog.Time.Timestamp

/-!
# The catalog

A catalog holds products in the order of their registration, datasets by identity, and for every
source the datasets derived from it. Every operation checks before it writes and gives the new
catalog only if it succeeds. Clock readings are arguments. A change to a record keeps its identity,
so that the key of a record always is its identity.
-/

namespace DatasetCatalog

/-- A dataset as recorded; its product is recorded by name. -/
structure StoredDataset where
  id : Identity
  product : String
  /-- The document without its lineage field. -/
  metadata : Document
  locations : List String
  archivedLocations : List String
  /-- The identity behind each classifier. -/
  sources : OrderedMap String Identity
  archived : Option Timestamp
  indexed : Option Timestamp
deriving Inhabited

theorem StoredDataset.id_archived (now : Timestamp) (d : StoredDataset) :
    { d with archived := some (d.archived.getD now) }.id = d.id := rfl

theorem StoredDataset.id_restored (d : StoredDataset) : { d with archived := none }.id = d.id := rfl

/-- A recorded dataset together with its product. -/
structure Entry where
  id : Identity
  product : Product
  metadata : Document
  /-- Active locations, the primary one first. -/
  locations : List String
  sources : OrderedMap String Identity
  archived : Option Timestamp
  indexed : Option Timestamp
deriving Inhabited

namespace Entry

def primaryUri? (e : Entry) : Option String := e.locations.head?

def isArchived (e : Entry) : Bool := e.archived.isSome

def status (e : Entry) : String := if e.isArchived then "archived" else "active"

end Entry

inductive CatalogError
  | notFound (id : Identity)
  | duplicate (id : Identity)
  | unknownProduct (name : String)
  /-- A product of this name has another definition. -/
  | productConflict (name : String) (differences : List Difference)
  | anonymousDataset
  | anonymousSource (root : Identity)
  | sourceNotIndexed (id : Identity)
  | productChange (old new : String)
  | updateRefused (dataset : String) (refused : List Difference)
  /-- A record names a product that the catalog does not have. -/
  | unregisteredProduct (dataset : Identity) (product : String)

namespace CatalogError

/-- Failed checks of what the caller handed in. -/
def isValidation : CatalogError → Bool
  | .productConflict .. | .anonymousDataset | .anonymousSource _ | .sourceNotIndexed _
  | .productChange .. | .updateRefused .. => true
  | _ => false

def cause : CatalogError → String
  | .notFound id => "No such dataset in the database: " ++ id.text
  | .duplicate id => "Dataset " ++ id.text ++ " is already indexed"
  | .unknownProduct name => "Unknown product: " ++ name
  | .productConflict name differences =>
    "product " ++ name ++ " already exists with a different definition: " ++
      Difference.listText differences
  | .anonymousDataset => "dataset has no identity"
  | .anonymousSource root => "source dataset of " ++ root.text ++ " has no identity"
  | .sourceNotIndexed id => "source dataset " ++ id.text ++ " is not indexed"
  | .productChange old new => "Changing product is not supported: " ++ old ++ " -> " ++ new
  | .updateRefused dataset refused =>
    "Updating the dataset " ++ dataset ++ " is not allowed: " ++ Difference.listText refused
  | .unregisteredProduct dataset product =>
    "dataset " ++ dataset.text ++ " refers to unregistered product " ++ product

def message (e : CatalogError) : String :=
  if e.isValidation then "Validation failed: " ++ e.cause else e.cause

end CatalogError

/-- A set of identities, listed in ascending order. -/
abbrev IdentitySet := OrderedMap Identity Unit

structure Catalog where
  products : List Product
  datasets : OrderedMap Identity StoredDataset
  /-- For a source, the datasets that list it. -/
  derived : OrderedMap Identity IdentitySet
  /-- Every dataset is recorded under its own identity. -/
  keyed : ∀ id d, datasets.find? id = some d → d.id = id

namespace Catalog

def empty : Catalog := ⟨[], .empty, .empty, fun _ _ h => nomatch h⟩

instance : Inhabited Catalog := ⟨empty⟩

def isEmpty (c : Catalog) : Bool := c.datasets.isEmpty

def size (c : Catalog) : Nat := c.datasets.size

def product? (c : Catalog) (name : String) : Option Product := c.products.find? fun p => p.name == name

def entry (c : Catalog) (d : StoredDataset) : Except CatalogError Entry :=
  match c.product? d.product with
  | none => .error (.unregisteredProduct d.id d.product)
  | some product =>
    .ok { id := d.id, product, metadata := d.metadata, locations := d.locations
          sources := d.sources, archived := d.archived, indexed := d.indexed }

def get? (c : Catalog) (id : Identity) : Except CatalogError (Option Entry) :=
  match c.datasets.find? id with
  | none => .ok none
  | some d => (c.entry d).map some

/-- The entry of a dataset that has to be there. -/
def get (c : Catalog) (id : Identity) : Except CatalogError Entry := do
  match ← c.get? id with
  | some e => .ok e
  | none => .error (.notFound id)

/-- The entries of those identities that are recorded. -/
def bulkGet (c : Catalog) (ids : List Identity) : Except CatalogError (OrderedMap Identity Entry) := do
  let entries ← (ids.filterMap c.datasets.find?).mapM c.entry
  .ok (.ofList (entries.map fun e => (e.id, e)))

/-- The datasets that list `id` among their sources, in ascending order. -/
def getDerived (c : Catalog) (id : Identity) : Except CatalogError (List Entry) :=
  match c.derived.find? id with
  | none => .ok []
  | some ids => (ids.keys.filterMap c.datasets.find?).mapM c.entry

def archivedLocations (c : Catalog) (id : Identity) : List String :=
  ((c.datasets.find? id).map StoredDataset.archivedLocations).getD []

/-- Adds `id` to the datasets derived from `source`. -/
def addDerived (derived : OrderedMap Identity IdentitySet) (source id : Identity) :
    OrderedMap Identity IdentitySet :=
  derived.insert source (((derived.find? source).getD .empty).insert id ())

/-- Records a dataset, in place of the one with its identity if there is one. -/
def insert (c : Catalog) (d : StoredDataset) : Catalog :=
  { c with
    datasets := c.datasets.insert d.id d
    derived := d.sources.values.foldl (fun derived source => addDerived derived source d.id) c.derived
    keyed := by
      intro id e h
      rw [OrderedMap.find?_insert] at h
      split at h
      next hid =>
        cases h
        exact (Std.LawfulEqOrd.eq_of_compare hid).symm
      next => exact c.keyed id e h }

/-- Applies `f`, which keeps identities, to the record of `id`, if there is one. -/
def adjust (c : Catalog) (id : Identity) (f : StoredDataset → StoredDataset)
    (hf : ∀ d, (f d).id = d.id) : Catalog :=
  { c with
    datasets := c.datasets.adjust id f
    keyed := by
      intro id' e h
      rw [OrderedMap.find?_adjust] at h
      split at h
      next =>
        obtain ⟨d, hd, rfl⟩ := Option.map_eq_some_iff.mp h
        rw [hf, c.keyed id' d hd]
      next => exact c.keyed id' e h }

@[simp] theorem datasets_adjust (c : Catalog) (id : Identity) {f : StoredDataset → StoredDataset}
    (hf : ∀ d, (f d).id = d.id) : (c.adjust id f hf).datasets = c.datasets.adjust id f := rfl

/-- Registers a product. A definition that is there already stays as it is; a different one of the
same name is refused. -/
def addProduct (c : Catalog) (p : Product) : Except CatalogError (Catalog × Product × List Event) :=
  match c.product? p.name with
  | some existing =>
    if existing.identical p then .ok (c, existing, [])
    else .error (.productConflict p.name (existing.metadata.changes p.metadata))
  | none =>
    .ok ({ c with products := c.products ++ [p] }, p, [.info "added product" [("product", p.name)]])

def record (g : DatasetGraph) (d : Dataset) (id : Identity) (now : Timestamp) : StoredDataset :=
  { id, product := d.product.name, metadata := d.metadata, locations := d.uris
    archivedLocations := [], sources := .ofList (g.sourceIds d), archived := none, indexed := some now }

/-- What adding a graph records for its node `i`: nothing if it is a source that is recorded
already. -/
def pending (c : Catalog) (g : DatasetGraph) (withLineage : Bool) (now : Timestamp)
    (root : Identity) (d : Dataset) (i : Nat) : Except CatalogError (Option StoredDataset) :=
  match d.id with
  | none => .error (.anonymousSource root)
  | some id =>
    if i ≠ g.root ∧ c.datasets.contains id then .ok none
    else if i ≠ g.root ∧ !withLineage then .error (.sourceNotIndexed id)
    else
      match c.product? d.product.name with
      | none => .error (.unknownProduct d.product.name)
      | some _ => .ok (some (record g d id now))

/-- Records the root of a graph, which must be new. With lineage, sources that are not recorded are
added too; without it they are refused. -/
def add (c : Catalog) (g : DatasetGraph) (withLineage : Bool) (now : Timestamp) :
    Except CatalogError Catalog :=
  match g.rootDataset.id with
  | none => .error .anonymousDataset
  | some root =>
    if c.datasets.contains root then .error (.duplicate root)
    else do
      let records ← g.nodes.zipIdx.mapM fun n => c.pending g withLineage now root n.1 n.2
      .ok ((records.filterMap fun r => r).foldl insert c)

/-- How a dataset differs from its record, judged by the rules. -/
def canUpdate (c : Catalog) (d : Dataset) (rules : ChangeRules) :
    Except CatalogError ClassifiedChanges :=
  match d.id with
  | none => .error .anonymousDataset
  | some id => do
    let existing ← c.get id
    if existing.product.name ≠ d.product.name then
      .error (.productChange existing.product.name d.product.name)
    else .ok (rules.classify (existing.metadata.changes d.metadata))

/-- Makes a location active: appended if it is new, and no longer archived. -/
def activate (d : StoredDataset) (uri : String) : StoredDataset :=
  { d with
    locations := if uri ∈ d.locations then d.locations else d.locations ++ [uri]
    archivedLocations := d.archivedLocations.filter (· ≠ uri) }

/-- Making locations active changes nothing but the lists of locations. -/
theorem foldl_activate_field {α : Type} (field : StoredDataset → α)
    (h : ∀ d uri, field (activate d uri) = field d) (uris : List String) (d : StoredDataset) :
    field (uris.foldl activate d) = field d := by
  induction uris generalizing d with
  | nil => rfl
  | cons uri rest ih => exact (ih (activate d uri)).trans (h d uri)

/-- Replaces the metadata of a recorded dataset and makes its locations active, if the rules allow
every change. -/
def update (c : Catalog) (d : Dataset) (rules : ChangeRules) : Except CatalogError Catalog := do
  let changes ← c.canUpdate d rules
  if !changes.isSafe then .error (.updateRefused d.label changes.refused)
  else
    match d.id with
    | none => .error .anonymousDataset
    | some id =>
      .ok (c.adjust id (fun stored => d.uris.foldl activate { stored with metadata := d.metadata })
        fun _ => foldl_activate_field StoredDataset.id (fun _ _ => rfl) d.uris _)

def firstUnknown? (c : Catalog) (ids : List Identity) : Option Identity :=
  ids.find? fun id => !c.datasets.contains id

/-- Applies `f`, which keeps identities, to each of these records, all of which must be there. -/
def adjustAll (c : Catalog) (ids : List Identity) (f : StoredDataset → StoredDataset)
    (hf : ∀ d, (f d).id = d.id) : Except CatalogError Catalog :=
  match c.firstUnknown? ids with
  | some id => .error (.notFound id)
  | none => .ok (ids.foldl (fun c id => c.adjust id f hf) c)

/-- Archives these datasets; one that is archived keeps its time. -/
def archive (c : Catalog) (ids : List Identity) (now : Timestamp) : Except CatalogError Catalog :=
  c.adjustAll ids (fun d => { d with archived := some (d.archived.getD now) })
    (StoredDataset.id_archived now)

def restore (c : Catalog) (ids : List Identity) : Except CatalogError Catalog :=
  c.adjustAll ids (fun d => { d with archived := none }) StoredDataset.id_restored

/-- Makes an active location an archived one. -/
def retire (uri : String) (d : StoredDataset) : StoredDataset :=
  { d with
    locations := d.locations.filter (· ≠ uri)
    archivedLocations :=
      if d.locations.contains uri then d.archivedLocations ++ [uri] else d.archivedLocations }

/-- Moves a location to the archived ones; also whether it was active. -/
def archiveLocation (c : Catalog) (id : Identity) (uri : String) :
    Except CatalogError (Catalog × Bool) :=
  match c.datasets.find? id with
  | none => .error (.notFound id)
  | some d =>
    .ok (c.adjust id (retire uri) fun _ => rfl, d.locations.contains uri)

def forget (uri : String) (d : StoredDataset) : StoredDataset :=
  { d with
    locations := d.locations.filter (· ≠ uri)
    archivedLocations := d.archivedLocations.filter (· ≠ uri) }

/-- Drops a location, active or archived; also whether it was there. -/
def removeLocation (c : Catalog) (id : Identity) (uri : String) :
    Except CatalogError (Catalog × Bool) :=
  match c.datasets.find? id with
  | none => .error (.notFound id)
  | some d =>
    .ok (c.adjust id (forget uri) fun _ => rfl,
      d.locations.contains uri || d.archivedLocations.contains uri)

end Catalog

end DatasetCatalog
