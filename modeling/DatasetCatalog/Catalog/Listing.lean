import DatasetCatalog.Catalog.Info
import DatasetCatalog.Json.Printer
import DatasetCatalog.Time.Text
import DatasetCatalog.Yaml.Printer

/-!
# Listings of dataset records

Records are listed as YAML, a document each, as one JSON array, or as rows of a table, which tell the
first location only. The first two hold the same values.
-/

namespace DatasetCatalog

namespace Csv

def needsQuotes (field : List Char) : Bool := field.any [',', '"', '\r', '\n'].contains

def quoted (field : List Char) : List Char :=
  '"' :: (field.flatMap fun c => if c == '"' then ['"', '"'] else [c]) ++ ['"']

/-- A field with a comma, a quote or a line break is quoted, and its quotes are written twice. -/
def field (text : String) : List Char :=
  if needsQuotes text.toList then quoted text.toList else text.toList

/-- A row of several fields. -/
def row (fields : List String) : String := String.ofList ([','].intercalate (fields.map field) ++ ['\n'])

end Csv

namespace DatasetInfo

/-- What a record says of its dataset alone. -/
def entryFields (e : Entry) : Fields :=
  [("id", .text e.id.text), ("product", .text e.product.name), ("status", .text e.status)] ++
    (e.indexed.map fun t => ("indexed", .text t.text)).toList ++
    [("locations", .sequence (e.locations.map .text)), ("fields", e.metadata.value)]

mutual

def value : DatasetInfo → Value
  | .record e sources derived =>
    .mapping (entryFields e ++ sourcesField sources ++ derivedField derived)

def sourcesField : Option (List (String × DatasetInfo)) → Fields
  | none => []
  | some sources => [("sources", .mapping (sourceValues sources))]

def sourceValues : List (String × DatasetInfo) → Fields
  | [] => []
  | (classifier, i) :: rest => (classifier, value i) :: sourceValues rest

def derivedField : Option (List DatasetInfo) → Fields
  | none => []
  | some derived => [("derived", .sequence (derivedValues derived))]

def derivedValues : List DatasetInfo → List Value
  | [] => []
  | i :: rest => value i :: derivedValues rest

end

/-- Identity, status, product and first location. -/
def row : DatasetInfo → List String
  | .record e _ _ => [e.id.text, e.status, e.product.name, e.locations.head?.getD ""]

end DatasetInfo

inductive ListingFormat
  | yaml
  | json
  | csv
deriving DecidableEq

namespace ListingFormat

def name : ListingFormat → String
  | .yaml => "yaml"
  | .json => "json"
  | .csv => "csv"

def all : List ListingFormat := [.yaml, .json, .csv]

def ofName? (name : String) : Option ListingFormat := all.find? fun f => f.name == name

def columns : List String := ["id", "status", "product", "location"]

def text (format : ListingFormat) (infos : List DatasetInfo) : String :=
  match format with
  | .yaml => String.join (infos.map fun i => "---\n" ++ Yaml.block i.value)
  | .json => Json.indented (.sequence (infos.map DatasetInfo.value)) ++ "\n"
  | .csv => String.join ((columns :: infos.map DatasetInfo.row).map Csv.row)

end ListingFormat

end DatasetCatalog
