import DatasetCatalog.Document.Basic

/-!
# Documents that are changed where they stand

Setting a field opens the way down to it level by level, and a level is written before the next one
is looked at. A write is not taken back: whatever has been written when the way ends stays written.
Taking a field out writes nothing on the way down, which ends in a slot: the mapping around the
field, together with the document that another value in its place would make.
-/

namespace DatasetCatalog

namespace Fields

def openLevel (fields : Fields) (k : String) : Fields :=
  match fields.find? k with
  | some (.mapping _) => fields
  | _ => fields.put k (.mapping [])

/-- Writes a field below a way of keys; also what is refused with if a level on it is no mapping
after it has been opened. -/
def writeAt (v : Value) (refusal : DocumentError) :
    Fields → List String → String → Except DocumentError Unit × Fields
  | fields, [], last => (.ok (), fields.put last v)
  | fields, k :: way, last =>
    let opened := fields.openLevel k
    match opened.find? k with
    | some (.mapping inner) =>
      let written := writeAt v refusal inner way last
      (written.1, opened.put k (.mapping written.2))
    | _ => (.error refusal, opened)

end Fields

def Document.setInPlace (d : Document) (path : FieldPath) (v : Value) :
    Except DocumentError Unit × Fields :=
  match path.keys? with
  | none => (.error (.invalidPath path.text), d.fields)
  | some keys =>
    match keys.getLast? with
    | none => (.error (.invalidPath path.text), d.fields)
    | some last => d.fields.writeAt v.normalize (.invalidPath path.text) keys.dropLast last

/-- A value inside a document, and the fields of the document with another value in its place. -/
structure Slot where
  value : Value
  write : Value → Fields

def Slot.step? (slot : Slot) (s : Step) : Option Slot :=
  match slot.value, s with
  | .mapping fields, .key k =>
    (Fields.find? fields k).map fun v =>
      ⟨v, fun w => slot.write (.mapping (Fields.put fields k w))⟩
  | .sequence items, .index i =>
    items[i]?.map fun v => ⟨v, fun w => slot.write (.sequence (items.set i w))⟩
  | _, _ => none

namespace Document

/-- The slot at a path; the root has none. -/
def slot? (d : Document) : FieldPath → Option Slot
  | .key k :: rest =>
    (d.fields.find? k).bind fun v => rest.foldlM Slot.step? ⟨v, fun w => d.fields.put k w⟩
  | _ => none

/-- Takes out the field at a path that ends in a key, and the fields that the document has then. -/
def removeInPlace (d : Document) (path : FieldPath) : Option Value × Fields :=
  match path.getLast?, path.parent? with
  | some (.key last), some parent =>
    if parent.isEmpty then (d.fields.find? last, d.fields.erase last)
    else
      match d.slot? parent with
      | some ⟨.mapping fields, write⟩ =>
        (Fields.find? fields last, write (.mapping (Fields.erase fields last)))
      | _ => (none, d.fields)
  | _, _ => (none, d.fields)

end Document

end DatasetCatalog
