import DatasetCatalog.Product.Matching

/-!
# Classified datasets and their graphs

A dataset graph holds a dataset with its ancestors. Nodes are pushed bottom-up, so that a node only
refers to smaller numbers, and an ancestor that several datasets share is one node.
-/

namespace DatasetCatalog

/-- A dataset with its product. -/
structure Dataset where
  id : Option Identity
  product : Product
  /-- The document without its lineage field. -/
  metadata : Document
  /-- Where it is stored, the primary location first. -/
  uris : List String
  /-- Classifiers with the numbers of nodes in the same graph. -/
  sources : List (String × Nat)
deriving Inhabited

inductive MeasurementError
  | undeclared (dataset : String)
  | incomplete (dataset : String)
deriving DecidableEq

namespace MeasurementError

def message : MeasurementError → String
  | .undeclared dataset =>
    "Dataset " ++ dataset ++ " inconsistency: No measurements defined for a dataset"
  | .incomplete dataset =>
    "Dataset " ++ dataset ++ " inconsistency: measurement fields don't match type specification"

end MeasurementError

namespace Dataset

def label (d : Dataset) : String := Identity.label d.id

def primaryUri? (d : Dataset) : Option String := d.uris.head?

/-- The product's measurements must all be declared. -/
def checkMeasurements (d : Dataset) (layout : Layout) : Except MeasurementError Unit :=
  if d.product.measurements.isEmpty then .ok ()
  else
    match layout.measurementNames? d.metadata with
    | none => .error (.undeclared d.label)
    | some declared =>
      if d.product.measurements.all declared.contains then .ok ()
      else .error (.incomplete d.label)

end Dataset

/-- How a graph came about. -/
structure ResolutionStats where
  /-- Look-ups in the catalog. -/
  lookups : Nat := 0
  /-- Nodes classified by matching. -/
  matched : Nat := 0
  /-- Nodes whose product the catalog knew. -/
  fromCatalog : Nat := 0
  /-- References to nodes that were there already. -/
  reused : Nat := 0
  /-- Lineage identities that the catalog does not know. -/
  missing : Nat := 0
deriving DecidableEq, Inhabited

structure DatasetGraph where
  nodes : List Dataset
  root : Nat
  stats : ResolutionStats
deriving Inhabited

namespace DatasetGraph

def single (d : Dataset) : DatasetGraph := ⟨[{ d with sources := [] }], 0, {}⟩

def node (g : DatasetGraph) (i : Nat) : Dataset := g.nodes.getD i default

def rootDataset (g : DatasetGraph) : Dataset := g.node g.root

def size (g : DatasetGraph) : Nat := g.nodes.length

def find? (g : DatasetGraph) (id : Identity) : Option Nat :=
  g.nodes.findIdx? fun n => n.id == some id

/-- The sources of a node with their classifiers. -/
def sourcesOf (g : DatasetGraph) (d : Dataset) : List (String × Dataset) :=
  d.sources.map fun s => (s.1, g.node s.2)

/-- The identities of a node's sources; sources without one are left out. -/
def sourceIds (g : DatasetGraph) (d : Dataset) : List (String × Identity) :=
  (g.sourcesOf d).filterMap fun s => s.2.id.map fun id => (s.1, id)

end DatasetGraph

end DatasetCatalog
