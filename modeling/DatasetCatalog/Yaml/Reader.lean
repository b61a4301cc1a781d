import DatasetCatalog.Yaml.Node
import DatasetCatalog.Yaml.Schema

/-!
# Reading YAML

The values of all documents of a text. Keys must be scalars and are taken as they are written; a
repeated key keeps its first place and takes its last value. References are replaced by what they
refer to, at most a hundred times as often as the document has parts.
-/

namespace DatasetCatalog.Yaml

def nestingLimit : Nat := 128

/-- A computation that counts the references it follows. -/
abbrev Following := StateT Nat Option

/-- The numbered anchors of a document and how many references may be followed. -/
structure Anchors where
  nodes : List (Nat × Node Nat)
  limit : Nat

namespace Anchors

def ofNode (n : Node Nat) : Anchors := ⟨n.anchored.reverse, 100 * n.weight⟩

def follow (a : Anchors) : Node Nat → Following (Node Nat)
  | .reference i => do
    let count ← get
    if a.limit ≤ count then failure
    else
      set (count + 1)
      (a.nodes.lookup i : Option (Node Nat))
  | n => pure n

def key (a : Anchors) (n : Node Nat) : Following String := do
  match ← a.follow n with
  | .scalar _ _ text _ => pure text
  | _ => failure

/-- The value of a node in which collections nest at most `levels` deep. -/
def value (a : Anchors) : (levels : Nat) → Node Nat → Following Value
  | 0, n => do
    match ← a.follow n with
    | .scalar _ tag text plain => (scalarValue? tag text plain : Option Value)
    | _ => failure
  | levels + 1, n => do
    match ← a.follow n with
    | .scalar _ tag text plain => (scalarValue? tag text plain : Option Value)
    | .reference _ => failure
    | .sequence _ tag items =>
      if tag.any Tag.isLocal then failure
      else do
        let values ← items.mapM (a.value levels)
        pure (.sequence values)
    | .mapping _ tag entries =>
      if tag.any Tag.isLocal then failure
      else do
        let fields ← entries.mapM fun e => do
          let k ← a.key e.1
          let v ← a.value levels e.2
          pure (k, v)
        pure (.mapping (Fields.collapse fields))

end Anchors

def documentValue? (n : Node String) : Option Value :=
  (n.number? []).bind fun (n, _) => ((Anchors.ofNode n).value nestingLimit n).run' 0

/-- The values of all documents of a text; a text without any holds a null. -/
def read? (text : String) : Option (List Value) :=
  ((Token.ofText? text).bind Node.ofTokens?).bind fun documents =>
    if documents.isEmpty then some [.null] else documents.mapM documentValue?

end DatasetCatalog.Yaml
