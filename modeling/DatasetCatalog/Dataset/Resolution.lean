import DatasetCatalog.Catalog.Basic
import DatasetCatalog.Lineage.Graph

/-!
# Resolution of documents

Resolving a document classifies it and, unless lineage is skipped, its ancestors. The lineage graph
of the document is crossed with the catalog: ancestors may have to be catalogued, and those that are
have to agree with their embedded copies. The dataset graph is then assembled bottom-up, each node of
the lineage graph becoming one dataset; a catalogued dataset keeps its product, others are matched.
Resolution reads the catalog at most once and never writes to it.
-/

namespace DatasetCatalog

/-- How lineage embedded in a document is treated. -/
inductive LineagePolicy
  | skip
  | follow (failOnMissing verify : Bool)
deriving DecidableEq

namespace LineagePolicy

def ofFlags (skipLineage failOnMissing verify : Bool) : LineagePolicy :=
  if skipLineage then .skip else .follow failOnMissing verify

def standard : LineagePolicy := .follow false true

end LineagePolicy

/-- A catalogued dataset that differs from its embedded copy. -/
structure Inconsistency where
  id : Identity
  differences : List Difference

def Inconsistency.text (i : Inconsistency) : String :=
  "Inconsistent lineage dataset " ++ i.id.text ++ ":\n> " ++ Difference.listText i.differences

inductive ResolveError
  | unmatched (cause : MatchError)
  | lineage (cause : LineageError)
  /-- Ancestors that the catalog does not have. -/
  | missing (ids : List Identity)
  | inconsistent (reports : List Inconsistency)
  | measurement (cause : MeasurementError)
  | catalog (cause : CatalogError)

def ResolveError.message : ResolveError → String
  | .unmatched cause => cause.message
  | .lineage (.document cause) => "Invalid document: " ++ cause.message
  | .lineage cause => cause.message
  | .missing ids =>
    "Following lineage datasets are missing from DB: " ++ ", ".intercalate (ids.map Identity.text)
  | .inconsistent reports => "\n".intercalate (reports.map Inconsistency.text)
  | .measurement cause => cause.message
  | .catalog cause => cause.message

/-- The datasets built so far, each after its sources, and the counts. -/
structure Assembly where
  nodes : List Dataset
  stats : ResolutionStats

namespace Assembly

/-- Where a dataset of this identity stands already. -/
def built? (a : Assembly) (id : Option Identity) : Option Nat :=
  id.bind fun id => a.nodes.findIdx? fun n => n.id == some id

def reuse (a : Assembly) : Assembly :=
  { a with stats := { a.stats with reused := a.stats.reused + 1 } }

def push (a : Assembly) (d : Dataset) : Nat × Assembly :=
  (a.nodes.length, { a with nodes := a.nodes ++ [d] })

def countMatched (a : Assembly) : Assembly :=
  { a with stats := { a.stats with matched := a.stats.matched + 1 } }

def countFromCatalog (a : Assembly) : Assembly :=
  { a with stats := { a.stats with fromCatalog := a.stats.fromCatalog + 1 } }

end Assembly

structure Resolver where
  matcher : Matcher
  policy : LineagePolicy

namespace Resolver

def layout (r : Resolver) : Layout := r.matcher.layout

/-- The product of a lineage node: the catalogued one, or else the one that matches. -/
def classify (r : Resolver) (known : OrderedMap Identity Entry) (node : LineageNode) (a : Assembly) :
    Except ResolveError (Product × Assembly) :=
  match node.id.bind known.find? with
  | some entry => .ok (entry.product, a.countFromCatalog)
  | none =>
    match r.matcher.matchDocument node.document with
    | .ok product => .ok (product, a.countMatched)
    | .error e => .error (.unmatched e)

/-- Adds the dataset of lineage node `i`, whose sources are built. Only the root has a location. -/
def place (r : Resolver) (known : OrderedMap Identity Entry) (g : LineageGraph) (uri : String)
    (i : Nat) (sources : List (String × Nat)) (a : Assembly) : Except ResolveError (Nat × Assembly) := do
  let (product, a) ← r.classify known (g.node i) a
  .ok (a.push
    { id := (g.node i).id, product, metadata := (g.node i).document
      uris := if i = 0 then [uri] else [], sources })

/-- Builds sources in turn, given how to build a lineage node. -/
def assembleSources (assembleNode : Nat → Assembly → Except ResolveError (Nat × Assembly)) :
    List (String × Nat) → Assembly → Except ResolveError (List (String × Nat) × Assembly)
  | [], a => .ok ([], a)
  | (classifier, i) :: rest, a => do
    let (j, a) ← assembleNode i a
    let (sources, a) ← assembleSources assembleNode rest a
    .ok ((classifier, j) :: sources, a)

/-- Builds lineage node `i` after its sources, unless it is there already. No chain of sources is
longer than `levels`. -/
def assemble (r : Resolver) (known : OrderedMap Identity Entry) (g : LineageGraph) (uri : String) :
    (levels : Nat) → (i : Nat) → Assembly → Except ResolveError (Nat × Assembly)
  | 0, i, a => r.place known g uri i [] a
  | levels + 1, i, a =>
    match a.built? (g.node i).id with
    | some j => .ok (j, a.reuse)
    | none => do
      let (sources, a) ← assembleSources (r.assemble known g uri levels) (g.node i).sources a
      r.place known g uri i sources a

/-- The catalogued ancestors that differ from their embedded copies. -/
def inconsistencies (known : OrderedMap Identity Entry) (g : LineageGraph) (ancestors : List Identity) :
    List Inconsistency :=
  ancestors.filterMap fun id => do
    let entry ← known.find? id
    let document ← g.document? id
    let differences := document.changes entry.metadata
    if differences.isEmpty then none else some ⟨id, differences⟩

def lookUp (c : Catalog) (ids : List Identity) : Except ResolveError (OrderedMap Identity Entry) :=
  if ids.isEmpty then .ok .empty
  else
    match c.bulkGet ids with
    | .ok known => .ok known
    | .error e => .error (.catalog e)

/-- The document alone, lineage left out. -/
def resolveFlat (r : Resolver) (d : Document) (uri : String) : Except ResolveError DatasetGraph :=
  match r.layout.identity d with
  | .error e => .error (.lineage (.document e))
  | .ok id =>
    let body := r.layout.withoutLineage d
    match r.matcher.matchDocument body with
    | .error e => .error (.unmatched e)
    | .ok product => .ok ⟨[⟨id, product, body, [uri], []⟩], 0, { matched := 1 }⟩

/-- The dataset graph of a lineage graph. -/
def resolveGraph (r : Resolver) (c : Catalog) (g : LineageGraph) (uri : String)
    (failOnMissing verify : Bool) : Except ResolveError DatasetGraph := do
  let ids := g.byIdentity.keys
  let known ← lookUp c ids
  let ancestors := ids.filter fun id => g.root.id ≠ some id
  let missing := ancestors.filter fun id => !known.contains id
  if failOnMissing && !missing.isEmpty then .error (.missing missing)
  else
    let reports := if verify then inconsistencies known g ancestors else []
    if !reports.isEmpty then .error (.inconsistent reports)
    else
      let stats : ResolutionStats :=
        { lookups := if ids.isEmpty then 0 else 1, missing := missing.length }
      let (root, built) ← r.assemble known g uri g.size 0 ⟨[], stats⟩
      .ok ⟨built.nodes, root, built.stats⟩

/-- The dataset graph of a document stored at `uri`. -/
def resolve (r : Resolver) (c : Catalog) (d : Document) (uri : String) :
    Except ResolveError DatasetGraph :=
  match r.policy with
  | .skip => r.resolveFlat d uri
  | .follow failOnMissing verify =>
    match LineageGraph.ofDocument? r.layout d with
    | .error e => .error (.lineage e)
    | .ok g => r.resolveGraph c g uri failOnMissing verify

/-- Resolves a document whose root must also declare its product's measurements. -/
def resolveChecked (r : Resolver) (c : Catalog) (d : Document) (uri : String) :
    Except ResolveError DatasetGraph := do
  let g ← r.resolve c d uri
  match g.rootDataset.checkMeasurements r.layout with
  | .ok () => .ok g
  | .error e => .error (.measurement e)

end Resolver

end DatasetCatalog
