import DatasetCatalog.Batch.Cascade
import DatasetCatalog.Batch.Indexing
import DatasetCatalog.Batch.Updating
import DatasetCatalog.Catalog.Basic
import DatasetCatalog.Catalog.InPlace
import DatasetCatalog.Catalog.Info
import DatasetCatalog.Catalog.Listing
import DatasetCatalog.Catalog.Rules
import DatasetCatalog.Catalog.Snapshot
import DatasetCatalog.CommandLine.Arguments
import DatasetCatalog.CommandLine.Request
import DatasetCatalog.CommandLine.Run
import DatasetCatalog.Dataset.Graph
import DatasetCatalog.Dataset.Resolution
import DatasetCatalog.Document.Basic
import DatasetCatalog.Document.ChangeRules
import DatasetCatalog.Document.Containment
import DatasetCatalog.Document.Difference
import DatasetCatalog.Document.DifferenceRecord
import DatasetCatalog.Document.Embedding
import DatasetCatalog.Document.InPlace
import DatasetCatalog.Document.Layout
import DatasetCatalog.Event
import DatasetCatalog.FieldPath
import DatasetCatalog.Files.FileSystem
import DatasetCatalog.Files.Metadata
import DatasetCatalog.Files.Path
import DatasetCatalog.Files.Replacement
import DatasetCatalog.Files.Stream
import DatasetCatalog.Identity
import DatasetCatalog.Json.Fault
import DatasetCatalog.Json.Numeral
import DatasetCatalog.Json.Printer
import DatasetCatalog.Json.Record
import DatasetCatalog.Json.Shape
import DatasetCatalog.Json.Token
import DatasetCatalog.Json.Tree
import DatasetCatalog.Lineage.Graph
import DatasetCatalog.Main
import DatasetCatalog.Number.Basic
import DatasetCatalog.Number.Binary64
import DatasetCatalog.Number.Shortest
import DatasetCatalog.OrderedMap
import DatasetCatalog.Product.Basic
import DatasetCatalog.Product.Matching
import DatasetCatalog.Proofs.Batch.Archival
import DatasetCatalog.Proofs.Batch.Derivation
import DatasetCatalog.Proofs.Batch.Descent
import DatasetCatalog.Proofs.Batch.DryRun
import DatasetCatalog.Proofs.Batch.Independence
import DatasetCatalog.Proofs.Batch.Isolation
import DatasetCatalog.Proofs.Batch.Relocation
import DatasetCatalog.Proofs.Batch.Restoration
import DatasetCatalog.Proofs.Batch.Reversal
import DatasetCatalog.Proofs.Batch.Selection
import DatasetCatalog.Proofs.Catalog.Admission
import DatasetCatalog.Proofs.Catalog.Alone
import DatasetCatalog.Proofs.Catalog.Ambiguity
import DatasetCatalog.Proofs.Catalog.Ancestry
import DatasetCatalog.Proofs.Catalog.Change
import DatasetCatalog.Proofs.Catalog.Curation
import DatasetCatalog.Proofs.Catalog.Frame
import DatasetCatalog.Proofs.Catalog.Gates
import DatasetCatalog.Proofs.Catalog.History
import DatasetCatalog.Proofs.Catalog.Idempotence
import DatasetCatalog.Proofs.Catalog.InPlace
import DatasetCatalog.Proofs.Catalog.Index
import DatasetCatalog.Proofs.Catalog.Locations
import DatasetCatalog.Proofs.Catalog.Measurement
import DatasetCatalog.Proofs.Catalog.Membership
import DatasetCatalog.Proofs.Catalog.Opening
import DatasetCatalog.Proofs.Catalog.Operation
import DatasetCatalog.Proofs.Catalog.Reading
import DatasetCatalog.Proofs.Catalog.Reopening
import DatasetCatalog.Proofs.Catalog.Retiming
import DatasetCatalog.Proofs.Catalog.Reverification
import DatasetCatalog.Proofs.Catalog.Session
import DatasetCatalog.Proofs.Catalog.Snapshot
import DatasetCatalog.Proofs.Catalog.Strategies
import DatasetCatalog.Proofs.Catalog.Unfolding
import DatasetCatalog.Proofs.Catalog.Update
import DatasetCatalog.Proofs.Dataset.Assembly
import DatasetCatalog.Proofs.Dataset.Resolution
import DatasetCatalog.Proofs.Document.Addition
import DatasetCatalog.Proofs.Document.Addressing
import DatasetCatalog.Proofs.Document.ChangeRules
import DatasetCatalog.Proofs.Document.Classification
import DatasetCatalog.Proofs.Document.Comparison
import DatasetCatalog.Proofs.Document.Containment
import DatasetCatalog.Proofs.Document.Difference
import DatasetCatalog.Proofs.Document.DottedRules
import DatasetCatalog.Proofs.Document.Extraction
import DatasetCatalog.Proofs.Document.Grafting
import DatasetCatalog.Proofs.Document.Patch
import DatasetCatalog.Proofs.Document.Removal
import DatasetCatalog.Proofs.Document.Setting
import DatasetCatalog.Proofs.Document.Signature
import DatasetCatalog.Proofs.Document.Stripping
import DatasetCatalog.Proofs.FieldPath
import DatasetCatalog.Proofs.Files.Stream
import DatasetCatalog.Proofs.Identity
import DatasetCatalog.Proofs.Json.Numeral
import DatasetCatalog.Proofs.Json.Record
import DatasetCatalog.Proofs.Json.Token
import DatasetCatalog.Proofs.Json.Tree
import DatasetCatalog.Proofs.Json.Value
import DatasetCatalog.Proofs.Lineage.Preorder
import DatasetCatalog.Proofs.Lineage.Reembedding
import DatasetCatalog.Proofs.Lineage.Refusal
import DatasetCatalog.Proofs.Lineage.Shape
import DatasetCatalog.Proofs.Lineage.Walk
import DatasetCatalog.Proofs.Number.Integer
import DatasetCatalog.Proofs.Number.Rational
import DatasetCatalog.Proofs.Number.Shortest
import DatasetCatalog.Proofs.OrderedMap
import DatasetCatalog.Proofs.Outcome
import DatasetCatalog.Proofs.Product.Matching
import DatasetCatalog.Proofs.Product.Record
import DatasetCatalog.Proofs.Text.Blank
import DatasetCatalog.Proofs.Text.Digits
import DatasetCatalog.Proofs.Time.Calendar
import DatasetCatalog.Proofs.Time.Text
import DatasetCatalog.Proofs.Time.Window
import DatasetCatalog.Proofs.Value.Agreement
import DatasetCatalog.Proofs.Value.Correspondence
import DatasetCatalog.Settings
import DatasetCatalog.Text.Basic
import DatasetCatalog.Text.Cased
import DatasetCatalog.Text.Lowercase
import DatasetCatalog.Time.Calendar
import DatasetCatalog.Time.Text
import DatasetCatalog.Time.Timestamp
import DatasetCatalog.Value.Basic
import DatasetCatalog.Value.Size
import DatasetCatalog.Value.WellFormed
import DatasetCatalog.Yaml.Cursor
import DatasetCatalog.Yaml.Node
import DatasetCatalog.Yaml.Printer
import DatasetCatalog.Yaml.Reader
import DatasetCatalog.Yaml.Scalar
import DatasetCatalog.Yaml.Schema
import DatasetCatalog.Yaml.Tag
import DatasetCatalog.Yaml.Token
