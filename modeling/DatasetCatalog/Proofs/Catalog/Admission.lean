import DatasetCatalog.Proofs.Batch.Descent

/-!
# Which graphs a catalog admits

A graph is added in one pass over its nodes, some of them recorded, some new and some perhaps
without an identity, and nothing is written before the last one has passed. `Accepts` is the
condition that the pass comes to. `Records` is what is written for a node: everything that the node
says, with the identities of its sources in the place of their numbers. No identity comes twice in
a resolved graph, so the catalog gains one record for every node that it lacks.
-/

namespace DatasetCatalog

namespace Catalog

/-- The dataset has an identity that is not recorded. -/
def lacks (c : Catalog) (n : Dataset) : Bool := n.id.any fun id => !c.datasets.contains id

/-- What a catalog asks of a graph that is to be added. -/
structure Accepts (c : Catalog) (g : DatasetGraph) (withLineage : Bool) : Prop where
  root : ∃ id, g.rootDataset.id = some id ∧ c.datasets.contains id = false
  identified : ∀ n ∈ g.nodes, ∃ id, n.id = some id
  sources : withLineage = true ∨ ∀ k < g.size, k ≠ g.root →
    ∀ id, (g.node k).id = some id → c.datasets.contains id = true
  registered : ∀ n ∈ g.nodes, c.lacks n = true → ∃ p, c.product? n.product.name = some p

/-- The record says of a node what the graph says of it. -/
structure Records (g : DatasetGraph) (n : Dataset) (now : Timestamp) (stored : StoredDataset) :
    Prop where
  id : n.id = some stored.id
  product : stored.product = n.product.name
  metadata : stored.metadata = n.metadata
  locations : stored.locations = n.uris
  archivedLocations : stored.archivedLocations = []
  archived : stored.archived = none
  indexed : stored.indexed = some now
  sources : ∀ s ∈ n.sources, ∃ source, (g.node s.2).id = some source ∧
    stored.sources.find? s.1 = some source
  classifiers : ∀ classifier, classifier ∈ stored.sources.keys ↔
    classifier ∈ n.sources.map Prod.fst

variable {c c' : Catalog} {g : DatasetGraph} {withLineage : Bool} {now : Timestamp}
  {root : Identity} {n : Dataset} {k : Nat}

section Survey

open Resolver

end Survey

end Catalog

end DatasetCatalog
