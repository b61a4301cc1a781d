import DatasetCatalog.Catalog.Basic
import DatasetCatalog.Document.Layout

/-!
# Products of a catalog

A product is defined by a document, which tells its name, the signature of its members, and perhaps a
description and measurements. Other documents are matched against all products of a catalog, or
against some of them by name.
-/

namespace DatasetCatalog

/-! ## Definitions -/

inductive DefinitionError
  | unnamed
  | noSignature (product : String)
  | signature (product : String) (cause : DocumentError)

def DefinitionError.message : DefinitionError → String
  | .unnamed => "product definition has no name"
  | .noSignature product => "product " ++ product ++ " has no metadata signature"
  | .signature product _ => "metadata signature of product " ++ product

namespace Product

def textField? (d : Document) (name : String) : Option String := (d.fields.find? name).bind Value.text?

/-- The product that a document defines. A description that is no text is ignored. -/
def ofDefinition (d : Document) : Except DefinitionError Product :=
  match textField? d "name" with
  | none => .error .unnamed
  | some name =>
    match d.fields.find? "metadata" with
    | none => .error (.noSignature name)
    | some signature =>
      match Document.ofValue? signature with
      | .error e => .error (.signature name e)
      | .ok metadata =>
        .ok { name, metadata, description := textField? d "description"
              measurements := (Layout.standard.measurementNames? d).getD [] }

end Product

/-! ## Matching rules -/

inductive RulesError
  | unknownProduct (name : String)
  | noProducts
deriving DecidableEq

def RulesError.message : RulesError → String
  | .unknownProduct name => "Supplied product name \"" ++ name ++ "\" not present in the database"
  | .noProducts => "Found no products in the database"

namespace Catalog

/-- The product of this name, which must be registered. -/
def namedProduct (c : Catalog) (name : String) : Except RulesError Product :=
  match c.product? name with
  | some p => .ok p
  | none => .error (.unknownProduct name)

/-- The rules of the named products, or of every product if no name is given. -/
def rules (c : Catalog) (names : List String) : Except RulesError (List ProductRule) := do
  let products ← if names.isEmpty then .ok c.products else names.mapM c.namedProduct
  if products.isEmpty then .error .noProducts else .ok (products.map .ofProduct)

end Catalog

end DatasetCatalog
