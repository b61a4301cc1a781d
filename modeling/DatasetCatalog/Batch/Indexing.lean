import DatasetCatalog.Dataset.Resolution
import DatasetCatalog.Event

/-!
# Indexing documents

Documents are resolved one after the other, each against the catalog that the ones before it have
left, and the graphs are added. A document that does not resolve is passed over, and so is a graph
that the catalog refuses.
-/

namespace DatasetCatalog.Indexing

structure Options where
  /-- Add ancestors that are not recorded yet. -/
  withLineage : Bool
  /-- Resolve, but add nothing. -/
  dryRun : Bool
deriving DecidableEq

def unresolvedEvent (uri : String) (e : ResolveError) : Event :=
  .error "failed to resolve dataset" [("uri", uri), ("error", e.message)]

/-- The graphs of those documents that resolve, with what is reported of the others. -/
def load (r : Resolver) (c : Catalog) (docs : List (String × Document)) :
    List DatasetGraph × List Event :=
  let results := docs.map fun d => (d.1, r.resolveChecked c d.2 d.1)
  (results.filterMap fun p => p.2.toOption,
    results.filterMap fun p =>
      match p.2 with
      | .ok _ => none
      | .error e => some (unresolvedEvent p.1 e))

structure Progress where
  catalog : Catalog
  /-- Counts the documents that resolve. -/
  report : BatchReport
  /-- How many do not. -/
  unresolved : Nat
  events : List Event

def matchedEvent (g : DatasetGraph) : Event :=
  let root := g.rootDataset
  .info ("Matched " ++ root.label)
    [("id", root.label), ("product", root.product.name), ("nodes", toString g.size)]

def addGraph (o : Options) (now : Timestamp) (p : Progress) (g : DatasetGraph) : Progress :=
  let p := { p with events := p.events ++ [matchedEvent g] }
  if o.dryRun then { p with report := p.report.succeed }
  else
    match p.catalog.add g o.withLineage now with
    | .ok catalog => { p with catalog, report := p.report.succeed }
    | .error e =>
      { p with
        report := p.report.fail
        events := p.events ++ [.error "Failed to add dataset"
          [("uri", g.rootDataset.primaryUri?.getD ""), ("error", e.message)]] }

def addDocument (r : Resolver) (o : Options) (now : Timestamp) (p : Progress)
    (d : String × Document) : Progress :=
  match r.resolveChecked p.catalog d.2 d.1 with
  | .ok g => addGraph o now p g
  | .error e =>
    { p with unresolved := p.unresolved + 1, events := p.events ++ [unresolvedEvent d.1 e] }

/-- Indexes documents in turn, the `i`-th at the `i`-th reading of the clock. -/
def run (r : Resolver) (o : Options) (clock : Nat → Timestamp) (c : Catalog)
    (docs : List (String × Document)) : Progress :=
  docs.zipIdx.foldl (fun p d => addDocument r o (clock d.2) p d.1) ⟨c, {}, 0, []⟩

end DatasetCatalog.Indexing
