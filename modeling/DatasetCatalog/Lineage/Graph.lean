import DatasetCatalog.Document.Difference
import DatasetCatalog.Document.Embedding
import DatasetCatalog.OrderedMap

/-!
# Lineage graphs

A document embeds its ancestors, those embed theirs, and one ancestor often stands at several
places. `LineageGraph.ofDocument?` walks them depth first and gives every identity one node: a later
occurrence must have the same body, lineage left out, and becomes a reference; an occurrence within
its own lineage is refused. Documents without an identity are nodes of their own. Nodes are numbered
in the order in which the walk meets them, the root first.
-/

namespace DatasetCatalog

/-- One distinct dataset of a lineage. -/
structure LineageNode where
  id : Option Identity
  /-- The document without its lineage field. -/
  document : Document
  /-- Classifiers with the numbers of the nodes they lead to, in document order. -/
  sources : List (String × Nat)
deriving Inhabited

structure LineageGraph where
  nodes : List LineageNode
deriving Inhabited

inductive LineageError
  | conflict (id : Identity) (differences : List Difference)
  | cycle (id : Identity)
  | document (cause : DocumentError)

def LineageError.message : LineageError → String
  | .conflict id differences =>
    "Inconsistent lineage for repeated dataset " ++ id.text ++ ": " ++ Difference.listText differences
  | .cycle id => "Dataset " ++ id.text ++ " appears in its own lineage"
  | .document cause => cause.message

namespace LineageGraph

def node (g : LineageGraph) (i : Nat) : LineageNode := g.nodes.getD i default

def root (g : LineageGraph) : LineageNode := g.node 0

def size (g : LineageGraph) : Nat := g.nodes.length

def indexOf? (g : LineageGraph) (id : Identity) : Option Nat :=
  g.nodes.findIdx? fun n => n.id == some id

def document? (g : LineageGraph) (id : Identity) : Option Document :=
  (g.nodes.find? fun n => n.id == some id).map LineageNode.document

/-- Every identity, in ascending order, with its document. -/
def byIdentity (g : LineageGraph) : OrderedMap Identity Document :=
  .ofList (g.nodes.filterMap fun n => n.id.map fun id => (id, n.document))

/-- A node number and the nodes found so far. -/
abbrev Walk := Except LineageError (Nat × List LineageNode)

/-- Walks over lineage entries in turn, given how to walk over a document smaller than `n`. -/
def walkEntries {n : Nat}
    (walkDocument : (d : Document) → d.size < n → List LineageNode → Walk) :
    (entries : List (String × Document)) → (∀ e ∈ entries, e.2.size < n) →
      List LineageNode → Except LineageError (List (String × Nat) × List LineageNode)
  | [], _, nodes => .ok ([], nodes)
  | (classifier, d) :: rest, h, nodes => do
    let (i, nodes) ← walkDocument d (h _ List.mem_cons_self) nodes
    let (sources, nodes) ←
      walkEntries walkDocument rest (fun e he => h e (List.mem_cons_of_mem _ he)) nodes
    .ok ((classifier, i) :: sources, nodes)

/-- An identity that has a node already. -/
def seen? (nodes : List LineageNode) (id : Option Identity) :
    Option (Identity × Nat × LineageNode) := do
  let id ← id
  let i ← nodes.findIdx? fun n => n.id == some id
  let n ← nodes[i]?
  some (id, i, n)

/-- Walks over a document smaller than `n`. `active` are the identities whose lineage is being walked
over. -/
def walk (layout : Layout) :
    (n : Nat) → (active : List Identity) → (d : Document) → d.size < n → List LineageNode → Walk
  | n + 1, active, d, h, nodes =>
    match layout.identity d with
    | .error e => .error (.document e)
    | .ok id =>
      let body := layout.withoutLineage d
      match seen? nodes id with
      | some (id, i, node) =>
        if id ∈ active then .error (.cycle id)
        else
          match node.document.changes body with
          | [] => .ok (i, nodes)
          | differences => .error (.conflict id differences)
      | none =>
        match hl : layout.lineage d with
        | .error e => .error (.document e)
        | .ok entries => do
          let smaller : ∀ e ∈ entries, e.2.size < n := fun _ he =>
            Nat.lt_of_lt_of_le (Layout.size_lt_of_mem_lineage hl he) (Nat.le_of_lt_succ h)
          let (sources, found) ← walkEntries (walk layout n (id.toList ++ active)) entries smaller
            (nodes ++ [⟨id, body, []⟩])
          .ok (nodes.length, found.modify nodes.length fun node => { node with sources })

/-- The graph of the lineage embedded in a document. -/
def ofDocument? (layout : Layout) (d : Document) : Except LineageError LineageGraph :=
  (walk layout (d.size + 1) [] d (Nat.lt_succ_self _) []).map fun found => ⟨found.2⟩

/-- The document of a node with its ancestors embedded again, up to `levels` deep. -/
def embed (g : LineageGraph) (layout : Layout) : Nat → Nat → Except DocumentError Document
  | 0, i => .ok (g.node i).document
  | levels + 1, i =>
    if (g.node i).sources.isEmpty then .ok (g.node i).document
    else do
      let entries ← (g.node i).sources.mapM fun s => do
        let d ← g.embed layout levels s.2
        pure (s.1, d.value)
      layout.withLineage (g.node i).document (Fields.collapse entries)

/-- The root document with its ancestors embedded at every place that refers to them. No chain of
references is longer than the number of nodes. -/
def toDocument (g : LineageGraph) (layout : Layout) : Except DocumentError Document :=
  g.embed layout g.size 0

/-- The same nodes in the same order. -/
def identical (g h : LineageGraph) : Bool :=
  g.nodes.length == h.nodes.length &&
    (g.nodes.zip h.nodes).all fun p =>
      p.1.id == p.2.id && p.1.document.value.identical p.2.document.value &&
        p.1.sources == p.2.sources

end LineageGraph

end DatasetCatalog
