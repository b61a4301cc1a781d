import DatasetCatalog.Document.Difference
import DatasetCatalog.OrderedMap

/-!
# Rules for changes

A rule set says at which paths a document may change and how. A difference is judged by the rule at
its own path or, failing that, at the nearest ancestor that carries one; without a rule it is not
allowed.
-/

namespace DatasetCatalog

/-- What a rule allows below its path. -/
inductive AllowedChange
  /-- Anything may change. -/
  | any
  /-- The field at the path may appear. -/
  | addition
  /-- The field at the path may disappear. -/
  | removal
  /-- Direct children of the path may appear. -/
  | extension
  /-- Direct children of the path may disappear. -/
  | truncation
deriving DecidableEq

namespace AllowedChange

def name : AllowedChange → String
  | .any => "any"
  | .addition => "addition"
  | .removal => "removal"
  | .extension => "extension"
  | .truncation => "truncation"

def all : List AllowedChange := [.any, .addition, .removal, .extension, .truncation]

def ofName? (name : String) : Option AllowedChange := all.find? fun c => c.name == name

/-- Whether a rule at `path` allows the difference. -/
def permits (change : AllowedChange) (path : FieldPath) (d : Difference) : Bool :=
  match change with
  | .any => true
  | .addition => d.path == path && d.left.isNone
  | .removal => d.path == path && d.right.isNone
  | .extension => d.path.parent? == some path && d.left.isNone
  | .truncation => d.path.parent? == some path && d.right.isNone

end AllowedChange

/-- Differences split by whether the rules allow them, each part in the given order. -/
structure ClassifiedChanges where
  allowed : List Difference
  refused : List Difference

namespace ClassifiedChanges

def isSafe (c : ClassifiedChanges) : Bool := c.refused.isEmpty

end ClassifiedChanges

/-- At most one rule per path. -/
abbrev ChangeRules := OrderedMap FieldPath AllowedChange

namespace ChangeRules

/-- Rules that allow any change at the fields with these dotted texts. -/
def allowAny (fields : List String) : Except DocumentError ChangeRules :=
  fields.foldlM (fun rules field => do
    let path ← FieldPath.ofText field
    pure (rules.insert path .any)) .empty

/-- The rule at `path`, or else at the nearest ancestor that has one, and where it stands. -/
def ruleFor? (rules : ChangeRules) (path : FieldPath) : Option (FieldPath × AllowedChange) :=
  (path :: path.ancestors).findSome? fun p => (rules.find? p).map fun change => (p, change)

def allows (rules : ChangeRules) (d : Difference) : Bool :=
  match rules.ruleFor? d.path with
  | some (path, change) => change.permits path d
  | none => false

def classify (rules : ChangeRules) (ds : List Difference) : ClassifiedChanges :=
  ⟨ds.filter rules.allows, ds.filter fun d => !rules.allows d⟩

end ChangeRules

end DatasetCatalog
