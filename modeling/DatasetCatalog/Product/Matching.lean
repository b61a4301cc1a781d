import DatasetCatalog.Document.Containment
import DatasetCatalog.Document.Layout
import DatasetCatalog.Product.Basic

/-!
# Matching documents to products

A document belongs to the product whose signature it contains. A single rule that fails is reported
with the part of the document that it speaks about; of several rules exactly one has to hold.
-/

namespace DatasetCatalog

structure ProductRule where
  product : Product
  signature : Document
deriving Inhabited

namespace ProductRule

/-- The rule whose signature is the product's metadata. -/
def ofProduct (p : Product) : ProductRule := ⟨p, p.metadata⟩

def holds (mode : CaseMode) (rule : ProductRule) (d : Document) : Bool :=
  d.contains mode rule.signature

end ProductRule

inductive MatchError
  /-- The only rule failed; `relevant` is what the document says about the signature's fields. -/
  | signatureMismatch (product : String) (relevant signature : Document)
  | noMatch (dataset : String)
  | ambiguous (dataset : String) (products : List String)
  | noRules

namespace MatchError

def message : MatchError → String
  | .signatureMismatch _ relevant signature =>
    "Dataset metadata did not match product signature.\nDataset definition:\n " ++ relevant.text ++
      "\n\nProduct signature:\n " ++ signature.text ++ "\n"
  | .noMatch dataset => "No matching Product found for dataset " ++ dataset
  | .ambiguous dataset products =>
    "Auto match failed, dataset " ++ dataset ++ " matches several products:\n  " ++
      ",".intercalate products
  | .noRules => "at least one product rule is required"

end MatchError

/-- What stands for the identity of a dataset that has none. -/
def Identity.label : Option Identity → String
  | some id => id.text
  | none => "<missing id>"

/-- Product rules, at least one, with the way to compare texts. -/
structure Matcher where
  rules : List ProductRule
  mode : CaseMode
  layout : Layout
  nonempty : rules ≠ []

namespace Matcher

def ofRules (rules : List ProductRule) (mode : CaseMode) (layout : Layout) :
    Except MatchError Matcher :=
  if h : rules ≠ [] then .ok ⟨rules, mode, layout, h⟩ else .error .noRules

/-- A document whose identity cannot be read has the label of one without. -/
def label (m : Matcher) (d : Document) : String :=
  match m.layout.identity d with
  | .ok id => Identity.label id
  | .error _ => Identity.label none

/-- The rules whose signature the document contains, in rule order. -/
def holding (m : Matcher) (d : Document) : List ProductRule :=
  m.rules.filter fun rule => rule.holds m.mode d

def matchSingle (m : Matcher) (rule : ProductRule) (d : Document) : Except MatchError Product :=
  if rule.holds m.mode d then .ok rule.product
  else
    .error (.signatureMismatch rule.product.name (d.filterKeys rule.signature.fields.contains)
      rule.signature)

def matchDocument (m : Matcher) (d : Document) : Except MatchError Product :=
  match m.rules with
  | [rule] => m.matchSingle rule d
  | _ =>
    match m.holding d with
    | [rule] => .ok rule.product
    | [] => .error (.noMatch (m.label d))
    | several => .error (.ambiguous (m.label d) (several.map fun rule => rule.product.name))

end Matcher

end DatasetCatalog
