import DatasetCatalog.Catalog.Basic

/-!
# Records for display

A dataset is described with its sources, the sources of these, and so on, or with what is derived
from it and from that. Sources are only followed upwards and derived datasets only downwards, down to
a number of levels.
-/

namespace DatasetCatalog

/-- A dataset with the records of its sources and derived datasets, where these are followed. -/
inductive DatasetInfo
  | record (entry : Entry) (sources : Option (List (String × DatasetInfo)))
      (derived : Option (List DatasetInfo))

instance : Inhabited DatasetInfo := ⟨.record default none none⟩

namespace DatasetInfo

structure Options where
  showSources : Bool := false
  showDerived : Bool := false
  /-- Levels of records, the dataset itself included. -/
  maxDepth : Nat := 99
deriving DecidableEq

def unindexedEvent (id : Identity) (classifier : String) : Event :=
  .warning "source dataset not indexed" [("id", id.text), ("classifier", classifier)]

/-- The records of sources, given how to describe an entry. Those that are not recorded are left
out. -/
def ofSources (c : Catalog) (describe : Entry → Except CatalogError (DatasetInfo × List Event)) :
    List (String × Identity) → Except CatalogError (List (String × DatasetInfo) × List Event)
  | [] => .ok ([], [])
  | (classifier, id) :: rest => do
    match ← c.get? id with
    | none =>
      let (infos, events) ← ofSources c describe rest
      .ok (infos, unindexedEvent id classifier :: events)
    | some e =>
      let (info, above) ← describe e
      let (infos, events) ← ofSources c describe rest
      .ok ((classifier, info) :: infos, above ++ events)

/-- The records of entries, given how to describe one. -/
def ofEntries (describe : Entry → Except CatalogError (DatasetInfo × List Event)) :
    List Entry → Except CatalogError (List DatasetInfo × List Event)
  | [] => .ok ([], [])
  | e :: rest => do
    let (info, below) ← describe e
    let (infos, events) ← ofEntries describe rest
    .ok (info :: infos, below ++ events)

/-- Describes an entry with `levels` more levels. -/
def unfold (c : Catalog) (levels : Nat) (showSources showDerived : Bool) (e : Entry) :
    Except CatalogError (DatasetInfo × List Event) :=
  match levels with
  | 0 => .ok (.record e none none, [])
  | levels + 1 => do
    let (sources, above) ←
      if showSources then
        (ofSources c (unfold c levels true false) e.sources.entries).map fun p => (some p.1, p.2)
      else .ok (none, [])
    let (derived, below) ←
      if showDerived then do
        let found ← c.getDerived e.id
        (ofEntries (unfold c levels false true) found).map fun p => (some p.1, p.2)
      else .ok (none, [])
    .ok (.record e sources derived, above ++ below)

def ofEntry (c : Catalog) (o : Options) (e : Entry) : Except CatalogError (DatasetInfo × List Event) :=
  unfold c (o.maxDepth - 1) o.showSources o.showDerived e

end DatasetInfo

end DatasetCatalog
