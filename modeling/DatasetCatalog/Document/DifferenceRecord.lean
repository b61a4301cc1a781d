import DatasetCatalog.Document.ChangeRules
import DatasetCatalog.Json.Record

/-!
# Differences as records

The JSON form of differences and of classified changes. A side is a record with a kind, `missing` or
`present`, and in the second case a value.
-/

namespace DatasetCatalog

namespace Step

def value : Step → Value
  | .key k => .text k
  | .index i => ((Number.ofInt? i).map Value.number).getD .null

end Step

namespace FieldPath

def value (path : FieldPath) : Value := .sequence (path.map Step.value)

end FieldPath

namespace Difference

def sideRecord : Option Value → Value
  | none => .mapping [("kind", .text "missing")]
  | some v => .mapping [("kind", .text "present"), ("value", v)]

def record (d : Difference) : Value :=
  .mapping [("path", d.path.value), ("left", sideRecord d.left), ("right", sideRecord d.right)]

/-- A missing side has no value but null. -/
def ofKind? (levels : Nat) (kind : String) (content : Option Json.Tree) : Option (Option Value) :=
  match kind with
  | "missing" =>
    match content with
    | none | some .null => some none
    | some _ => none
  | "present" => (content.bind (·.value? levels)).map some
  | _ => none

/-- As an array, a side has both its fields, and its kind is a plain text. -/
def readSide? (levels : Nat) : Json.Tree → Option (Option Value)
  | .array [kind, content] => kind.text?.bind fun k => ofKind? levels k (some content)
  | .array _ => none
  | t =>
    match t.record? ["kind", "value"] with
    | some [kind, content] =>
      (Json.Tree.required? Json.Tree.name? kind).bind fun k => ofKind? levels k content
    | _ => none

def read? (levels : Nat) (t : Json.Tree) : Option Difference :=
  match t.record? ["path", "left", "right"] with
  | some [path, left, right] => do
    let path ← Json.Tree.required? Json.Tree.path? path
    let left ← Json.Tree.required? (readSide? levels) left
    let right ← Json.Tree.required? (readSide? levels) right
    some ⟨path, left.map Value.normalize, right.map Value.normalize⟩
  | _ => none

end Difference

namespace ClassifiedChanges

def record (c : ClassifiedChanges) : Value :=
  .mapping [("safe_changes", .sequence (c.allowed.map Difference.record)),
    ("unsafe_changes", .sequence (c.refused.map Difference.record))]

end ClassifiedChanges

namespace AllowedChange

/-- A change is written as its name. -/
def read? (t : Json.Tree) : Option AllowedChange := t.name?.bind ofName?

end AllowedChange

end DatasetCatalog
