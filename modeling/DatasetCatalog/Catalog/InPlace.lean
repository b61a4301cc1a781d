import DatasetCatalog.Catalog.Basic

/-!
# Operations on a catalog that is changed where it stands

The operations of a catalog as sequences of checks and single writes to one shared catalog. A write
is not taken back: whatever has been written when a step fails stays written.
-/

namespace DatasetCatalog

/-- A step on a shared catalog. If it fails, the catalog is kept as it is then. -/
abbrev InPlace := ExceptT CatalogError (StateM Catalog)

namespace InPlace

/-- The outcome of a step, and the catalog that it leaves. -/
def result {α : Type} (step : InPlace α) (c : Catalog) : Except CatalogError α × Catalog :=
  step.run.run c

/-- Looks at the catalog without a write. -/
def check {α : Type} (test : Catalog → Except CatalogError α) : InPlace α :=
  ExceptT.mk do return test (← get)

def stored (id : Identity) : InPlace StoredDataset :=
  check fun c =>
    match c.datasets.find? id with
    | none => .error (.notFound id)
    | some d => .ok d

def requireAll (ids : List Identity) : InPlace Unit :=
  check fun c =>
    match c.firstUnknown? ids with
    | some id => .error (.notFound id)
    | none => .ok ()

def write (id : Identity) (f : StoredDataset → StoredDataset) (hf : ∀ d, (f d).id = d.id) :
    InPlace Unit :=
  modify fun c => c.adjust id f hf

/-- Writes to the records of these datasets, one after the other. -/
def writeEach (ids : List Identity) (f : StoredDataset → StoredDataset)
    (hf : ∀ d, (f d).id = d.id) : InPlace Unit :=
  ids.forM fun id => do
    let _ ← stored id
    write id f hf

def addProduct (p : Product) : InPlace (Product × List Event) := do
  match (← get).product? p.name with
  | some existing =>
    if existing.identical p then return (existing, [])
    else throw (.productConflict p.name (existing.metadata.changes p.metadata))
  | none =>
    modify fun c => { c with products := c.products ++ [p] }
    return (p, [.info "added product" [("product", p.name)]])

/-- Settles for every node of the graph what to record, and then records it. -/
def add (g : DatasetGraph) (withLineage : Bool) (now : Timestamp) : InPlace Unit := do
  match g.rootDataset.id with
  | none => throw .anonymousDataset
  | some root =>
    if (← get).datasets.contains root then throw (.duplicate root)
    else
      let records ← g.nodes.zipIdx.mapM fun n =>
        check fun c => c.pending g withLineage now root n.1 n.2
      (records.filterMap fun r => r).forM fun d => modify fun c => c.insert d

def update (d : Dataset) (rules : ChangeRules) : InPlace Unit := do
  let changes ← check fun c => c.canUpdate d rules
  if !changes.isSafe then throw (.updateRefused d.label changes.refused)
  else
    match d.id with
    | none => throw .anonymousDataset
    | some id =>
      let _ ← stored id
      write id (fun stored => { stored with metadata := d.metadata }) fun _ => rfl
      d.uris.forM fun uri => write id (fun stored => Catalog.activate stored uri) fun _ => rfl

def archive (ids : List Identity) (now : Timestamp) : InPlace Unit := do
  requireAll ids
  writeEach ids (fun d => { d with archived := some (d.archived.getD now) })
    (StoredDataset.id_archived now)

def restore (ids : List Identity) : InPlace Unit := do
  requireAll ids
  writeEach ids (fun d => { d with archived := none }) StoredDataset.id_restored

def archiveLocation (id : Identity) (uri : String) : InPlace Bool := do
  let before ← stored id
  write id (fun d => { d with locations := d.locations.filter (· ≠ uri) }) fun _ => rfl
  let after ← stored id
  if after.locations.length = before.locations.length then return false
  else
    write id (fun d => { d with archivedLocations := d.archivedLocations ++ [uri] }) fun _ => rfl
    return true

def removeLocation (id : Identity) (uri : String) : InPlace Bool := do
  let before ← stored id
  write id (fun d => { d with locations := d.locations.filter (· ≠ uri) }) fun _ => rfl
  write id (fun d => { d with archivedLocations := d.archivedLocations.filter (· ≠ uri) })
    fun _ => rfl
  let after ← stored id
  return after.locations.length + after.archivedLocations.length ≠
    before.locations.length + before.archivedLocations.length

end InPlace

namespace Catalog

/-- An operation that writes to a catalog, with what it answers if it succeeds. -/
inductive Write : Type → Type
  | addProduct (p : Product) : Write (Product × List Event)
  | add (g : DatasetGraph) (withLineage : Bool) (now : Timestamp) : Write Unit
  | update (d : Dataset) (rules : ChangeRules) : Write Unit
  | archive (ids : List Identity) (now : Timestamp) : Write Unit
  | restore (ids : List Identity) : Write Unit
  | archiveLocation (id : Identity) (uri : String) : Write Bool
  | removeLocation (id : Identity) (uri : String) : Write Bool

namespace Write

variable {α : Type}

/-- The operation as a function of the catalog. -/
def outcome (c : Catalog) : Write α → Except CatalogError (Catalog × α)
  | .addProduct p => c.addProduct p
  | .add g withLineage now => (c.add g withLineage now).map (·, ())
  | .update d rules => (c.update d rules).map (·, ())
  | .archive ids now => (c.archive ids now).map (·, ())
  | .restore ids => (c.restore ids).map (·, ())
  | .archiveLocation id uri => c.archiveLocation id uri
  | .removeLocation id uri => c.removeLocation id uri

/-- The operation on a shared catalog. -/
def inPlace : Write α → InPlace α
  | .addProduct p => InPlace.addProduct p
  | .add g withLineage now => InPlace.add g withLineage now
  | .update d rules => InPlace.update d rules
  | .archive ids now => InPlace.archive ids now
  | .restore ids => InPlace.restore ids
  | .archiveLocation id uri => InPlace.archiveLocation id uri
  | .removeLocation id uri => InPlace.removeLocation id uri

end Write

end Catalog

end DatasetCatalog
