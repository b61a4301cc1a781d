import DatasetCatalog.Document.Basic
import DatasetCatalog.Identity

/-!
# Document layouts

A layout names the fields in which documents keep their identity, their lineage and their
measurements. The lineage field maps a classifier to an embedded ancestor document; taking it out
also takes out enclosing mappings that it leaves empty.
-/

namespace DatasetCatalog

structure Layout where
  id : FieldPath := .ofKeys ["id"]
  sources : FieldPath := .ofKeys ["lineage", "source_datasets"]
  measurements : FieldPath := .ofKeys ["measurements"]
deriving DecidableEq, Inhabited

namespace Layout

def standard : Layout := {}

/-- The identity of a document. Absent or null means that it has none; blanks around the text do not
count. -/
def identity (layout : Layout) (d : Document) : Except DocumentError (Option Identity) :=
  match d.get? layout.id with
  | none | some .null => .ok none
  | some (.text s) =>
    match Identity.parse? (String.ofList (Text.trim s.toList)) with
    | some id => .ok (some id)
    | none => .error (.invalidIdentity s)
  | some v => .error (.invalidIdentity (Json.compact v))

def lineageEntry (f : String × Value) : Except DocumentError (String × Document) :=
  match f.2 with
  | .mapping fields => .ok (f.1, .ofFields fields)
  | _ => .error (.invalidLineageEntry f.1)

/-- The embedded lineage documents with their classifiers, in document order. -/
def lineage (layout : Layout) (d : Document) : Except DocumentError (List (String × Document)) :=
  match d.get? layout.sources with
  | none | some .null => .ok []
  | some (.mapping entries) => entries.mapM lineageEntry
  | some _ => .error (.invalidLineageField layout.sources)

def hasLineage (layout : Layout) (d : Document) : Bool :=
  match d.get? layout.sources with
  | some (.mapping (_ :: _)) => true
  | _ => false

/-- Takes out the mappings at these paths, one after the other, as long as they are empty. -/
def pruneEmpty (d : Document) : List FieldPath → Document
  | [] => d
  | path :: rest =>
    match d.get? path with
    | some (.mapping []) => pruneEmpty ((d.remove? path).elim d Prod.snd) rest
    | _ => d

/-- The document without its lineage field and without the mappings that this leaves empty. -/
def withoutLineage (layout : Layout) (d : Document) : Document :=
  match d.remove? layout.sources with
  | none => d
  | some (_, rest) => pruneEmpty rest layout.sources.ancestors

def withLineage (layout : Layout) (d : Document) (entries : Fields) :
    Except DocumentError Document :=
  d.set? layout.sources (.mapping entries)

/-- The name that an element of a measurement sequence gives. -/
def measurementName? : Value → Option String
  | .text s => some s
  | .mapping fields => (Fields.find? fields "name").bind Value.text?
  | _ => none

/-- The names of the declared measurements, if there is a measurement field. -/
def measurementNames? (layout : Layout) (d : Document) : Option (List String) :=
  match d.get? layout.measurements with
  | some (.mapping fields) => some (Fields.keys fields)
  | some (.sequence items) => some (items.filterMap measurementName?)
  | _ => none

end Layout

end DatasetCatalog
