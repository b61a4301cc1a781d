import DatasetCatalog.Document.Basic

/-!
# Containment of a signature

A document contains a signature when every field of the signature is in the document with the same
value. Mappings are compared field by field, so further fields never matter; a null in the signature
stands for any mapping. Sequences and scalars have to be the same.
-/

namespace DatasetCatalog

namespace Value

mutual

/-- Whether the second value contains the first, the signature. -/
def within (mode : CaseMode) : Value → Value → Bool
  | .null, .mapping _ => true
  | .mapping wanted, .mapping fields => fieldsWithin mode wanted fields
  | wanted, v => !v.isMapping && v.sameValue mode wanted

/-- Whether each field of the signature is within the field of its key. -/
def fieldsWithin (mode : CaseMode) : List (String × Value) → Fields → Bool
  | [], _ => true
  | (k, wanted) :: rest, fields =>
    (match fields.find? k with
      | some v => wanted.within mode v
      | none => false) && fieldsWithin mode rest fields

end

def contains (mode : CaseMode) (v signature : Value) : Bool := signature.within mode v

end Value

namespace Document

/-- Whether `d` contains `signature`. -/
def contains (mode : CaseMode) (d signature : Document) : Bool :=
  Value.fieldsWithin mode signature.fields d.fields

end Document

end DatasetCatalog
